import WasmContract.Proofs.Opaque.Entries

/-!
# Sections with opaque bytes

`Frame.payloadRoles` gives the role of each byte of a payload: the code of function bodies, the data
of segments and the content of custom sections are kept as they are found, the subsections of other
types than 0 and 1 of a name section are passed over, and so is everything that a section or a
subsection leaves unread. All other bytes belong to the format.

When bytes that do not belong to the format are overwritten, the payload is decoded as before, and
the new bytes stand in the place of the old ones (`Frame.survives_of_decode`).
-/

namespace WasmContract

open Reader

/-! ### Payloads -/

/-- The payload of a frame is overwritten in its place. -/
theorem Frame.Intact.exists_of_overwrites {f : Frame} {roles : List Role} {new : List UInt8}
    (h : f.Intact) (hroles : roles.length = f.payload.length)
    (hnew : Overwrites (Role.endingIn f.bytes.length roles) f.bytes new) :
    ∃ payload, Intact { f with payload, bytes := new } ∧ Overwrites roles f.payload payload ∧
      ∀ role, role ≠ .format →
        pick role (Role.endingIn f.bytes.length roles) new = pick role roles payload := by
  obtain ⟨opening, hbytes, hset⟩ := h.exists_opening
  rw [hbytes] at hnew
  obtain ⟨payload, rfl, hpayload⟩ := (Overwrites.endingIn_iff hroles).mp hnew
  have hlength := hpayload.length_eq
  refine ⟨payload, hset payload hlength, hpayload, fun role hrole => ?_⟩
  exact pick_endingIn hrole (hroles.trans hlength.symm)
    (by rw [hbytes, List.length_append, List.length_append, hlength])

/-! ### Name sections -/

namespace NameSection

/-- The roles of the bytes in the payload of a subsection. -/
def subsectionRoles (subsection : Frame) : List Role :=
  match subsection.id with
  | 0 => readRoles Reader.name subsection.payload
  | 1 => readRoles (vec FunctionName.reader) subsection.payload
  | _ => List.replicate subsection.payload.length .ignored

/-- The roles of the bytes of subsections that follow one another. -/
def framesRoles (subsections : List Frame) : List Role :=
  subsections.flatMap fun f => Role.endingIn f.bytes.length (subsectionRoles f)

/-- The roles of the bytes of a name section, behind the name of the section itself. -/
def roles (content : List UInt8) : List Role := framesRoles (Framing.ofBytes content).frames

variable {names names' : NameSection} {subsection : Frame} {subsections : List Frame}
  {content : List UInt8}

/-- What is read of a subsection does not depend on what is left unread. -/
theorem absorb_of_read {α : Type} {r : Reader α} {g : α → NameSection} (hr : Lawful r)
    (hroles : subsectionRoles subsection = readRoles r subsection.payload)
    (houtcome : ∀ f : Frame, f.id = subsection.id →
      (absorb names f).outcome = (r f.payload).map fun p => g p.1)
    (h : (absorb names subsection).outcome = .ok names') :
    (subsectionRoles subsection).length = subsection.payload.length ∧
      ∀ payload, Overwrites (subsectionRoles subsection) subsection.payload payload →
        (∀ bytes, (absorb names { subsection with payload, bytes }).outcome = .ok names') ∧
          ∀ role, role.IsKept → pick role (subsectionRoles subsection) payload = [] := by
  rw [houtcome subsection rfl] at h
  obtain ⟨⟨a, unread⟩, hread, rfl⟩ := Except.map_eq_ok_iff.mp h
  obtain ⟨hlength, hnew⟩ := exists_of_overwrites_read hr hread
  rw [hroles]
  refine ⟨hlength, fun payload hpayload => ?_⟩
  obtain ⟨⟨unread', hread', -⟩, hpick⟩ := hnew payload hpayload
  refine ⟨fun bytes => ?_, hpick⟩
  rw [houtcome ⟨subsection.id, payload, bytes⟩ rfl, hread', Except.ok_map]

/-- The names that are taken from a subsection do not depend on what is passed over. -/
theorem absorb_of_overwrites (h : (absorb names subsection).outcome = .ok names') :
    (subsectionRoles subsection).length = subsection.payload.length ∧
      ∀ payload, Overwrites (subsectionRoles subsection) subsection.payload payload →
        (∀ bytes, (absorb names { subsection with payload, bytes }).outcome = .ok names') ∧
          ∀ role, role.IsKept → pick role (subsectionRoles subsection) payload = [] := by
  by_cases hname : subsection.id = 0
  · exact absorb_of_read (g := fun moduleName => { names with moduleName := some moduleName })
      lawful_name (by rw [subsectionRoles, hname]; rfl)
      (fun f hf => outcome_absorb_moduleName (hf.trans hname)) h
  by_cases hfunctions : subsection.id = 1
  · exact absorb_of_read (g := fun functionNames => { names with functionNames })
      (lawful_vec FunctionName.lawful_reader) (by rw [subsectionRoles, hfunctions]; rfl)
      (fun f hf => outcome_absorb_functionNames (hf.trans hfunctions)) h
  have hroles : subsectionRoles subsection =
      List.replicate subsection.payload.length .ignored := by
    unfold subsectionRoles
    split
    · exact absurd ‹_› hname
    · exact absurd ‹_› hfunctions
    · rfl
  rw [outcome_absorb_other hname hfunctions] at h
  rw [hroles]
  refine ⟨List.length_replicate, fun payload _ => ⟨fun bytes => ?_, fun role hrole => ?_⟩⟩
  · refine (outcome_absorb_other ?_ ?_).trans h
    · exact hname
    · exact hfunctions
  · exact pick_replicate_of_ne hrole.ne_ignored.symm _ _

/-- The names of subsections that follow one another do not depend on what is passed over. -/
theorem foldlM_of_overwrites (hintact : ∀ f ∈ subsections, f.Intact)
    (h : (subsections.foldlM absorb names).outcome = .ok names') :
    (framesRoles subsections).length = (subsections.flatMap Frame.bytes).length ∧
      ∀ new, Overwrites (framesRoles subsections) (subsections.flatMap Frame.bytes) new →
        (∃ others : List Frame, new = others.flatMap Frame.bytes ∧ (∀ f ∈ others, f.Intact) ∧
          (others.foldlM absorb names).outcome = .ok names') ∧
          ∀ role, role.IsKept → pick role (framesRoles subsections) new = [] := by
  induction subsections generalizing names with
  | nil =>
    refine ⟨rfl, fun new hnew => ⟨⟨[], ?_, List.forall_mem_nil _, h⟩, fun role _ => rfl⟩⟩
    exact List.eq_nil_of_length_eq_zero hnew.length_eq
  | cons f later ih =>
    rw [List.foldlM_cons, Logged.outcome_bind, Except.bind_eq_ok_iff] at h
    obtain ⟨next, hfirst, hlater⟩ := h
    obtain ⟨hf, hothers⟩ := List.forall_mem_cons.mp hintact
    obtain ⟨hpayload, habsorb⟩ := absorb_of_overwrites hfirst
    obtain ⟨hlength, hfold⟩ := ih hothers hlater
    have hframe : (Role.endingIn f.bytes.length (subsectionRoles f)).length = f.bytes.length :=
      Role.length_endingIn (hpayload ▸ hf.length_payload_le)
    rw [framesRoles, List.flatMap_cons, ← framesRoles, List.flatMap_cons, List.length_append,
      hframe, hlength, List.length_append]
    refine ⟨rfl, fun new hnew => ?_⟩
    obtain ⟨front, back, rfl, hfront, hback⟩ := (Overwrites.append_iff hframe).mp hnew
    obtain ⟨payload, hfront', hover, hpick⟩ := hf.exists_of_overwrites hpayload hfront
    obtain ⟨habsorb, hnone⟩ := habsorb payload hover
    obtain ⟨⟨others, rfl, hintact', hfold⟩, hnone'⟩ := hfold back hback
    refine ⟨⟨_ :: others, rfl, List.forall_mem_cons.mpr ⟨hfront', hintact'⟩, ?_⟩,
      fun role hrole => ?_⟩
    · rw [List.foldlM_cons, Logged.outcome_bind, habsorb front, Except.ok_bind, hfold]
    · rw [pick_append (hframe.trans hfront.length_eq.symm), hpick role hrole.ne_format,
        hnone role hrole, hnone' role hrole, List.append_nil]

/-- **The names of a name section do not depend on what is passed over.** -/
theorem ofPayload_of_overwrites (h : (ofPayload content).outcome = .ok names) :
    (roles content).length = content.length ∧
      ∀ new, Overwrites (roles content) content new →
        (ofPayload new).outcome = .ok names ∧
          ∀ role, role.IsKept → pick role (roles content) new = [] := by
  obtain ⟨subsections, hframing, hfound⟩ := outcome_ofPayload_eq_ok_iff.mp h
  obtain ⟨hjoin, hintact⟩ := Framing.ofBytes_eq_iff.mp hframing
  obtain ⟨hlength, hnew⟩ := foldlM_of_overwrites hintact hfound
  rw [roles, hframing]
  rw [← hjoin] at hlength hnew
  refine ⟨hlength, fun new hover => ?_⟩
  obtain ⟨⟨others, hothers, hintact', hfold⟩, hpick⟩ := hnew new hover
  have hframing' := Framing.ofBytes_eq_iff.mpr ⟨hothers, hintact'⟩
  exact ⟨outcome_ofPayload_eq_ok_iff.mpr ⟨others, hframing', hfold⟩, hpick⟩

end NameSection

/-! ### Custom sections -/

namespace CustomSection

/-- The roles of the bytes in the payload of a custom section. -/
def roles (payload : List UInt8) : List Role :=
  match Reader.name payload with
  | .ok (name, content) =>
    Role.endingIn payload.length
      (if name = NameSection.sectionName then NameSection.roles content
        else List.replicate content.length .content)
  | .error _ => List.replicate payload.length .format

/-- A custom section with zeros for its content, if this has no meaning. -/
def blank : CustomSection → CustomSection
  | names found => names found
  | raw name content => raw name (List.replicate content.length 0)

/-- The content of a custom section, if it has no meaning. -/
def content : CustomSection → List UInt8
  | names _ => []
  | raw _ content => content

theorem length_content_blank (c : CustomSection) : c.blank.content.length = c.content.length := by
  cases c with
  | names => rfl
  | raw name content => exact List.length_replicate

/-- Custom sections are told apart by their content without meaning, and by all else. -/
theorem eq_of_blank_eq {c d : CustomSection} (hblank : c.blank = d.blank)
    (hcontent : c.content = d.content) : c = d := by
  cases c with
  | names found =>
    cases d with
    | names other => exact hblank
    | raw name content => cases hblank
  | raw name content =>
    cases d with
    | names other => cases hblank
    | raw name' content' => rw [(raw.inj hblank).1, show content = content' from hcontent]

/-- **A custom section whose content is overwritten** has the new content and the same name. -/
theorem ofPayload_of_overwrites {payload : List UInt8} {c : CustomSection}
    (h : (CustomSection.ofPayload payload).outcome = .ok c) :
    (roles payload).length = payload.length ∧
      ∀ new, Overwrites (roles payload) payload new →
        ∃ c', (CustomSection.ofPayload new).outcome = .ok c' ∧ c'.blank = c.blank ∧
          ∀ role, role.IsKept →
            pick role (roles payload) new = if role = .content then c'.content else [] := by
  obtain ⟨name, content, hname, hcases⟩ := outcome_ofPayload_eq_ok_iff.mp h
  obtain ⟨used, rfl, hused⟩ := lawful_name.ok hname
  rw [roles, hused content]
  dsimp only
  obtain ⟨rfl, found, hfound, rfl⟩ | ⟨hother, rfl⟩ := hcases
  · obtain ⟨hlength, hover⟩ := NameSection.ofPayload_of_overwrites hfound
    rw [if_pos rfl]
    refine ⟨Role.length_endingIn (by simp [hlength]), fun new hnew => ?_⟩
    obtain ⟨content', rfl, hcontent⟩ := (Overwrites.endingIn_iff hlength).mp hnew
    obtain ⟨hfound', hpick⟩ := hover content' hcontent
    have hsame := hcontent.length_eq
    refine ⟨names found, outcome_ofPayload_eq_ok_iff.mpr
      ⟨_, content', hused content', .inl ⟨rfl, found, hfound', rfl⟩⟩, rfl, fun role hrole => ?_⟩
    rw [pick_endingIn hrole.ne_format (hlength.trans hsame.symm) (by simp [hsame]),
      hpick role hrole]
    split <;> rfl
  · rw [if_neg hother]
    refine ⟨Role.length_endingIn (by simp), fun new hnew => ?_⟩
    obtain ⟨content', rfl, hcontent⟩ := (Overwrites.endingIn_iff List.length_replicate).mp hnew
    have hsame := hcontent.length_eq
    refine ⟨raw name content', outcome_ofPayload_eq_ok_iff.mpr
      ⟨name, content', hused content', .inr ⟨hother, rfl⟩⟩, by rw [blank, blank, hsame],
      fun role hrole => ?_⟩
    rw [pick_endingIn hrole.ne_format (by rw [List.length_replicate, hsame]) (by simp [hsame]),
      pick_replicate hsame]
    rfl

end CustomSection

/-! ### Sections -/

namespace Section

/-- A section with zeros for code, for data, and for content that has no meaning. -/
def blank : Section → Section
  | custom content => custom content.blank
  | bodies entries => bodies (entries.map FunctionBody.codeField.blank)
  | data entries => data (entries.map DataSegment.dataField.blank)
  | s => s

/-- The bytes of a role that a section keeps, if it is of the kind to keep such bytes. -/
def kept? : Role → Section → Option (List UInt8)
  | .code, bodies entries => some (entries.flatMap (·.code))
  | .data, data entries => some (entries.flatMap (·.data))
  | .content, custom content => some content.content
  | _, _ => none

/-- The bytes of a role that a section keeps. -/
def contents (role : Role) (s : Section) : List UInt8 := s.entries (kept? role)

@[simp] theorem kind_blank (s : Section) : s.blank.kind = s.kind := by
  cases s <;> rfl

/-- Other sections than custom sections, function bodies and data have no bytes to be blanked
out. -/
theorem blank_eq_self {s : Section} (hcustom : s.kind ≠ .custom) (hbodies : s.kind ≠ .bodies)
    (hdata : s.kind ≠ .data) : s.blank = s := by
  cases s with
  | custom => exact absurd rfl hcustom
  | bodies => exact absurd rfl hbodies
  | data => exact absurd rfl hdata
  | _ => rfl

/-- Bytes are blanked out one by one, so there are as many as before. -/
theorem length_contents_blank (role : Role) (s : Section) :
    (s.blank.contents role).length = (s.contents role).length := by
  cases s with
  | custom content =>
    cases role with
    | content => exact content.length_content_blank
    | _ => rfl
  | bodies entries =>
    cases role with
    | code => exact FunctionBody.codeField.length_flatMap_get_blank entries
    | _ => rfl
  | data entries =>
    cases role with
    | data => exact DataSegment.dataField.length_flatMap_get_blank entries
    | _ => rfl
  | _ => rfl

/-- Sections are told apart by the bytes that they keep, and by all else. -/
theorem eq_of_blank_eq {s t : Section} (hblank : s.blank = t.blank)
    (hcontents : ∀ role, role.IsKept → s.contents role = t.contents role) : s = t := by
  have hkind : t.kind = s.kind := by rw [← kind_blank t, ← hblank, kind_blank]
  cases s with
  | custom c =>
    cases t with
    | custom d =>
      have hcontent := hcontents .content (.inr (.inr rfl))
      rw [CustomSection.eq_of_blank_eq (custom.inj hblank) hcontent]
    | _ => cases hkind
  | bodies entries =>
    cases t with
    | bodies others =>
      have hcode := hcontents .code (.inl rfl)
      rw [FunctionBody.codeField.eq_of_map_blank_eq (bodies.inj hblank) hcode]
    | _ => cases hkind
  | data entries =>
    cases t with
    | data others =>
      have hdata := hcontents .data (.inr (.inl rfl))
      rw [DataSegment.dataField.eq_of_map_blank_eq (data.inj hblank) hdata]
    | _ => cases hkind
  | _ =>
    have ht : t.blank = t := by
      apply blank_eq_self
      all_goals
        rw [hkind]
        nofun
    exact hblank.trans ht

/-- So are sections that follow one another. -/
theorem eq_of_map_blank_eq {sections others : List Section}
    (hblank : sections.map blank = others.map blank) (hcontents : ∀ role, role.IsKept →
      sections.flatMap (contents role) = others.flatMap (contents role)) : sections = others :=
  eq_of_map_blank_eq_of_flatMap_eq
    (fun (role : { role : Role // role.IsKept }) s => length_contents_blank role.1 s)
    (fun _ _ hst hsame => eq_of_blank_eq hst fun role hrole => hsame ⟨role, hrole⟩) hblank
    fun role => hcontents role.1 role.2

end Section

/-! ### Sections in frames -/

namespace Frame

/-- The roles of the bytes in the payload of a frame that holds a section. -/
def payloadRoles (f : Frame) : List Role :=
  match SectionKind.ofCode? f.id.toNat with
  | some .custom => CustomSection.roles f.payload
  | some .bodies => vecRoles FunctionBody.reader FunctionBody.codeField .code f.payload
  | some .data => vecRoles DataSegment.reader DataSegment.dataField .data f.payload
  | _ => readRoles (fun payload => decode { f with payload }) f.payload

/-- When bytes that do not belong to the format are overwritten, the section that is decoded differs
in the bytes that it keeps, and these are the new ones. -/
structure Survives (f : Frame) (s : Section) (unread : List UInt8) : Prop where
  /-- Every byte of the payload has a role. -/
  length_payloadRoles : f.payloadRoles.length = f.payload.length
  /-- Any other payload with the same format is decoded. -/
  overwritten : ∀ payload, Overwrites f.payloadRoles f.payload payload →
    ∃ s' unread', (∀ bytes, decode { f with payload, bytes } = .ok (s', unread')) ∧
      unread'.length = unread.length ∧ s'.blank = s.blank ∧
      ∀ role, role.IsKept → pick role f.payloadRoles payload = s'.contents role
  /-- Only code and data can be overwritten unless bytes are left unread or the section is a custom
  section. -/
  copied : unread = [] → s.kind ≠ .custom →
    ∀ role ∈ f.payloadRoles, role = .format ∨ role = .code ∨ role = .data

variable {α : Type} {f : Frame} {unread : List UInt8} {s : Section} {kind : SectionKind}

/-- A custom section survives with its new content. -/
theorem survives_of_custom (hid : f.id = SectionKind.custom.code)
    (h : f.decode = .ok (s, unread)) : f.Survives s unread := by
  have hroles : f.payloadRoles = CustomSection.roles f.payload := by
    rw [payloadRoles, hid]
    rfl
  rw [decode_of_id_custom hid, Except.map_eq_ok_iff] at h
  obtain ⟨c, hc, hpure⟩ := h
  cases hpure
  obtain ⟨hlength, hover⟩ := CustomSection.ofPayload_of_overwrites hc
  refine ⟨hroles ▸ hlength, fun payload hnew => ?_, fun _ hkind => absurd rfl hkind⟩
  rw [hroles] at hnew
  obtain ⟨c', hc', hblank, hpick⟩ := hover payload hnew
  refine ⟨.custom c', [], fun bytes => ?_, rfl, congrArg Section.custom hblank,
    fun role hrole => ?_⟩
  · refine (decode_of_id_custom ?_).trans ?_
    · exact hid
    · rw [hc', Except.ok_map]
  · rw [hroles, hpick role hrole]
    rcases hrole with rfl | rfl | rfl <;> rfl

/-- A vector of entries that end in bytes. -/
theorem survives_of_vec {item : Reader α} {φ : ByteField α} {role : Role} {make : List α → Section}
    (hid : f.id = kind.code) (hreader : Section.reader? kind = some (make <$> vec item))
    (hroles : f.payloadRoles = vecRoles item φ role f.payload)
    (hφ : item.EndsIn φ) (hitem : Lawful item) (hrole : role = .code ∨ role = .data)
    (hblank : ∀ entries, (make entries).blank = make (entries.map φ.blank))
    (hcontents : ∀ other, other.IsKept → ∀ entries,
      (make entries).contents other = if other = role then entries.flatMap φ.get else [])
    (h : f.decode = .ok (s, unread)) : f.Survives s unread := by
  have hdecode : ∀ g : Frame, g.id = kind.code → g.decode =
      (vec (captured item) g.payload).map fun p => (make (p.1.map Prod.fst), p.2) := by
    intro g hg
    rw [decode_of_reader? hg hreader, map_eq_bind, bind_apply, vec_eq_map_captured]
    cases vec (captured item) g.payload <;> rfl
  rw [hdecode f hid, Except.map_eq_ok_iff] at h
  obtain ⟨⟨entries, rest⟩, hread, hpure⟩ := h
  cases hpure
  have hformat : role ≠ .format := by rcases hrole with rfl | rfl <;> decide
  obtain ⟨hlength, hover⟩ := hφ.exists_of_overwrites_vec hitem hformat hread
  refine ⟨hroles ▸ hlength, fun payload hnew => ?_, fun hnil _ other hother => ?_⟩
  · rw [hroles] at hnew
    obtain ⟨entries', unread', hread', hunread, hsame, hpick⟩ := hover payload hnew
    refine ⟨make (entries'.map Prod.fst), unread', fun bytes => ?_, hunread, ?_,
      fun other hother => ?_⟩
    · refine (hdecode ⟨f.id, payload, bytes⟩ hid).trans ?_
      rw [hread', Except.ok_map]
    · rw [hblank, hblank, List.map_map, List.map_map]
      exact congrArg make hsame
    · rw [hroles, hpick other hother, hcontents other hother, List.flatMap_map]
  · subst hnil
    rcases mem_vecRoles hread (hroles ▸ hother) with rfl | rfl
    · exact .inl rfl
    · exact .inr hrole

/-- A section that keeps no bytes as they are. -/
theorem survives_of_read {r : Reader Section} (hid : f.id = kind.code)
    (hreader : Section.reader? kind = some r)
    (hroles : f.payloadRoles = readRoles (fun payload => decode { f with payload }) f.payload)
    (hcontents : ∀ role, s.contents role = []) (h : f.decode = .ok (s, unread)) :
    f.Survives s unread := by
  have hread : (fun payload => decode { f with payload }) = r :=
    funext fun payload => decode_of_reader? hid hreader
  rw [decode_of_reader? hid hreader] at h
  obtain ⟨hlength, hover⟩ := exists_of_overwrites_read (Section.lawful_of_reader? hreader) h
  rw [hread] at hroles
  refine ⟨hroles ▸ hlength, fun payload hnew => ?_, fun hnil _ role hrole => ?_⟩
  · rw [hroles] at hnew
    obtain ⟨⟨unread', hread', hunread⟩, hpick⟩ := hover payload hnew
    refine ⟨s, unread', fun bytes => ?_, hunread, rfl, fun role hrole => ?_⟩
    · refine (decode_of_reader? ?_ hreader).trans hread'
      exact hid
    · rw [hroles, hpick role hrole, hcontents]
  · subst hnil
    exact .inl (mem_readRoles h (hroles ▸ hrole))

/-- **Sections survive overwriting.** -/
theorem survives_of_decode (h : f.decode = .ok (s, unread)) : f.Survives s unread := by
  have hid := id_of_decode h
  cases s with
  | custom content => exact survives_of_custom hid h
  | bodies entries =>
    refine survives_of_vec hid rfl (by rw [payloadRoles, hid]; rfl) FunctionBody.endsIn
      FunctionBody.lawful_reader (.inl rfl) (fun _ => rfl) (fun other hother entries => ?_) h
    rcases hother with rfl | rfl | rfl <;> rfl
  | data entries =>
    refine survives_of_vec hid rfl (by rw [payloadRoles, hid]; rfl) DataSegment.endsIn
      DataSegment.lawful_reader (.inr rfl) (fun _ => rfl) (fun other hother entries => ?_) h
    rcases hother with rfl | rfl | rfl <;> rfl
  | _ =>
    refine survives_of_read hid rfl (by rw [payloadRoles, hid]; rfl) (fun role => ?_) h
    cases role <;> rfl

end Frame

end WasmContract
