import WasmContract.Proofs.Opaque.Role
import WasmContract.Proofs.Section.Spelled

/-!
# Entries that end in bytes

The code of a function body and the data of a segment are fields of bytes that stand at the end of
the entry and take up what the size in front of them says. So each entry of a vector is found where
it was when these bytes are overwritten, and is read with the new bytes in its field
(`Reader.EndsIn.exists_of_overwrites_vec`).
-/

namespace WasmContract

open Reader

/-- Lists are told apart by the bytes of their items and by what is left when these are blanked out,
if that is true of the items and the bytes are as many as the blanks. -/
theorem eq_of_map_blank_eq_of_flatMap_eq {ι α : Type} {blank : α → α} {get : ι → α → List UInt8}
    (hlength : ∀ i a, (get i (blank a)).length = (get i a).length)
    (heq : ∀ a b, blank a = blank b → (∀ i, get i a = get i b) → a = b) {as bs : List α}
    (hblank : as.map blank = bs.map blank)
    (hget : ∀ i, as.flatMap (get i) = bs.flatMap (get i)) : as = bs := by
  induction as generalizing bs with
  | nil => exact (List.map_eq_nil_iff.mp hblank.symm).symm
  | cons a later ih =>
    cases bs with
    | nil => cases hblank
    | cons b left =>
      obtain ⟨hfirst, hlater⟩ := List.cons.inj hblank
      have happend : ∀ i, get i a = get i b ∧ later.flatMap (get i) = left.flatMap (get i) :=
        fun i => List.append_inj (hget i) (by rw [← hlength, hfirst, hlength])
      rw [heq a b hfirst fun i => (happend i).1, ih hlater fun i => (happend i).2]

/-- A field of bytes. -/
structure ByteField (α : Type) where
  /-- The bytes in the field. -/
  get : α → List UInt8
  /-- Puts other bytes into the field. -/
  set : List UInt8 → α → α
  /-- What was put is there. -/
  get_set : ∀ bytes a, get (set bytes a) = bytes
  /-- To put what is there changes nothing. -/
  set_get : ∀ a, set (get a) a = a
  /-- Only what was put last is there. -/
  set_set : ∀ bytes bytes' a, set bytes (set bytes' a) = set bytes a

namespace ByteField

variable {α : Type} (φ : ByteField α) {a b : α} {entries others : List α}

/-- Puts zeros into a field, as many as there are bytes. -/
def blank (a : α) : α := φ.set (List.replicate (φ.get a).length 0) a

/-- What was in a field does not show when it is blanked out. -/
theorem blank_set {bytes : List UInt8} (h : bytes.length = (φ.get a).length) :
    φ.blank (φ.set bytes a) = φ.blank a := by
  rw [blank, φ.get_set, φ.set_set, h]
  rfl

theorem length_get_blank (a : α) : (φ.get (φ.blank a)).length = (φ.get a).length := by
  rw [blank, φ.get_set, List.length_replicate]

/-- What is in a field and what is not make up the whole. -/
theorem eq_of_blank_eq (hblank : φ.blank a = φ.blank b) (hget : φ.get a = φ.get b) : a = b := by
  have hset := congrArg (φ.set (φ.get a)) hblank
  rw [blank, blank, φ.set_set, φ.set_set, φ.set_get] at hset
  rw [hset, hget, φ.set_get]

theorem length_flatMap_get_blank (entries : List α) :
    ((entries.map φ.blank).flatMap φ.get).length = (entries.flatMap φ.get).length := by
  simp only [List.flatMap_map, List.length_flatMap, length_get_blank]

/-- Entries are told apart by what is in the fields and what is not. -/
theorem eq_of_map_blank_eq (hblank : entries.map φ.blank = others.map φ.blank)
    (hget : entries.flatMap φ.get = others.flatMap φ.get) : entries = others :=
  eq_of_map_blank_eq_of_flatMap_eq (fun (_ : Unit) a => φ.length_get_blank a)
    (fun _ _ hab hget => φ.eq_of_blank_eq hab (hget ())) hblank fun _ => hget

end ByteField

/-- The code of a function body. -/
def FunctionBody.codeField : ByteField FunctionBody where
  get b := b.code
  set code b := { b with code }
  get_set _ _ := rfl
  set_get _ := rfl
  set_set _ _ _ := rfl

/-- The data of a segment. -/
def DataSegment.dataField : ByteField DataSegment where
  get d := d.data
  set data d := { d with data }
  get_set _ _ := rfl
  set_get _ := rfl
  set_set _ _ _ := rfl

namespace Reader

variable {α β : Type} {r item : Reader α} {f : α → Reader β} {φ : ByteField α} {ψ : ByteField β}

/-- Items of the reader end in the bytes of a field, and these are not looked at. -/
def EndsIn (r : Reader α) (φ : ByteField α) : Prop :=
  ∀ ⦃used a⦄, r.Reads used a → ∃ opening, used = opening ++ φ.get a ∧
    ∀ bytes, bytes.length = (φ.get a).length → r.Reads (opening ++ bytes) (φ.set bytes a)

namespace EndsIn

/-- Readers in a row end in the bytes in which the last one ends. -/
protected theorem bind (hr : Lawful r) (hf : ∀ a, Lawful (f a)) (h : ∀ a, (f a).EndsIn ψ) :
    (r >>= f).EndsIn ψ := by
  intro used b hread
  obtain ⟨a, first, later, rfl, hfirst, hlater⟩ := hread.exists_of_bind hr hf
  obtain ⟨opening, rfl, hset⟩ := h a hlater
  refine ⟨first ++ opening, (List.append_assoc ..).symm, fun bytes hbytes => ?_⟩
  rw [List.append_assoc]
  exact hfirst.bind (hset bytes hbytes)

end EndsIn

/-- An item is read from a slice that ends in other bytes. -/
protected theorem Reads.within {used : List UInt8} {a : α} (h : r.Reads used a)
    (left : List UInt8) : (within (used ++ left) r).Reads [] (a, left) := by
  intro rest
  rw [within, h left]
  rfl

end Reader

/-- A body ends in its code, which is all that follows the local variables in the slice of the body.
-/
theorem FunctionBody.endsIn : FunctionBody.reader.EndsIn codeField := by
  intro used b h
  have hgroups := lawful_vec LocalGroup.lawful_reader
  obtain ⟨body, first, later, rfl, hbody, hlater⟩ :=
    h.exists_of_bind lawful_sized fun body => (hgroups.within body).bind fun _ => .pure _
  obtain ⟨⟨locals, code⟩, rfl, hwithin⟩ := hlater.exists_of_last (hgroups.within body)
  have hslice := hwithin []
  rw [List.append_nil] at hslice
  obtain ⟨inner, hread, hpure⟩ := Except.bind_eq_ok_iff.mp hslice
  cases hpure
  -- the local variables are read from the front of the body, whatever code follows them
  obtain ⟨groups, rfl, hlocals⟩ := hgroups.ok hread
  obtain ⟨opening, rfl, hset⟩ := hbody.exists_opening
  refine ⟨opening ++ groups, by simp [codeField], fun bytes hbytes => ?_⟩
  have hsized := hset (groups ++ bytes) (by simpa [codeField] using hbytes)
  have hread : FunctionBody.reader.Reads (opening ++ (groups ++ bytes) ++ []) ⟨locals, bytes⟩ :=
    hsized.bind ((hlocals.within bytes).last fun p => FunctionBody.mk p.1 p.2)
  rwa [List.append_nil, ← List.append_assoc] at hread

/-- A segment ends in its data, with the size in front. -/
theorem DataSegment.endsIn : DataSegment.reader.EndsIn dataField := by
  refine .bind Leb128.lawful_u32 (fun _ => InitExpr.lawful_reader.bind fun _ =>
    lawful_sized.bind fun _ => .pure _) fun memory => ?_
  refine .bind InitExpr.lawful_reader (fun _ => lawful_sized.bind fun _ => .pure _) fun offset => ?_
  intro used d h
  obtain ⟨data, rfl, hdata⟩ := h.exists_of_last lawful_sized
  obtain ⟨opening, rfl, hset⟩ := hdata.exists_opening
  exact ⟨opening, rfl, fun bytes hbytes => (hset bytes hbytes).last _⟩

/-! ### Vectors -/

namespace Reader

variable {α : Type} {item : Reader α} {φ : ByteField α} {role : Role}
  {entries : List (α × List UInt8)} {payload unread new : List UInt8}

/-- The roles of the bytes of entries, each given with the bytes it was read from. -/
def entryRoles (φ : ByteField α) (role : Role) (entries : List (α × List UInt8)) : List Role :=
  entries.flatMap fun p => Role.endingIn p.2.length (List.replicate (φ.get p.1).length role)

/-- The roles of the bytes that a vector is read from, and of those that are left unread. -/
def vecRoles (item : Reader α) (φ : ByteField α) (role : Role) (payload : List UInt8) :
    List Role :=
  match vec (captured item) payload with
  | .ok (entries, unread) =>
    Role.endingIn payload.length
      (entryRoles φ role entries ++ List.replicate unread.length .ignored)
  | .error _ => List.replicate payload.length .format

/-- Entries with the bytes they are read from. -/
def Captures (item : Reader α) (entries : List (α × List UInt8)) : Prop :=
  ∀ p ∈ entries, item.Reads p.2 p.1

theorem Reads.length_get_le (hφ : item.EndsIn φ) {used : List UInt8} {a : α}
    (h : item.Reads used a) : (φ.get a).length ≤ used.length := by
  obtain ⟨opening, rfl, -⟩ := hφ h
  rw [List.length_append]
  exact Nat.le_add_left _ _

theorem length_entryRoles (hφ : item.EndsIn φ) (h : Captures item entries) :
    (entryRoles φ role entries).length = (entries.flatMap Prod.snd).length := by
  induction entries with
  | nil => rfl
  | cons p later ih =>
    obtain ⟨hp, hlater⟩ := List.forall_mem_cons.mp h
    rw [entryRoles, List.flatMap_cons, List.length_append, ← entryRoles, ih hlater,
      List.flatMap_cons, List.length_append, Role.length_endingIn]
    rw [List.length_replicate]
    exact hp.length_get_le hφ

/-- Entries whose bytes are overwritten are read with the new bytes in their fields. -/
theorem EndsIn.exists_of_overwrites (hφ : item.EndsIn φ) (hrole : role ≠ .format)
    (h : Captures item entries)
    (hnew : Overwrites (entryRoles φ role entries) (entries.flatMap Prod.snd) new) :
    ∃ entries', new = entries'.flatMap Prod.snd ∧ Captures item entries' ∧
      entries'.map (φ.blank ·.1) = entries.map (φ.blank ·.1) ∧
      ∀ other, other ≠ .format → pick other (entryRoles φ role entries) new =
        if other = role then entries'.flatMap (φ.get ·.1) else [] := by
  induction entries generalizing new with
  | nil =>
    have hnil : new = [] := List.eq_nil_of_length_eq_zero hnew.length_eq
    exact ⟨[], hnil, List.forall_mem_nil _, rfl, fun other _ => by simp [entryRoles, pick]⟩
  | cons p later ih =>
    obtain ⟨a, used⟩ := p
    obtain ⟨hp, hlater⟩ := List.forall_mem_cons.mp h
    dsimp only at hp
    obtain ⟨opening, rfl, hset⟩ := hφ hp
    have hlength : (List.replicate (φ.get a).length role).length = (φ.get a).length :=
      List.length_replicate
    have hfirst : (Role.endingIn (opening ++ φ.get a).length
        (List.replicate (φ.get a).length role)).length = (opening ++ φ.get a).length :=
      Role.length_endingIn (by simp)
    obtain ⟨front, back, rfl, hfront, hback⟩ := (Overwrites.append_iff hfirst).mp hnew
    obtain ⟨bytes, rfl, hbytes⟩ := (Overwrites.endingIn_iff hlength).mp hfront
    rw [Overwrites.replicate_iff hrole] at hbytes
    obtain ⟨entries', rfl, hread, hblank, hpick⟩ := ih hlater hback
    refine ⟨(φ.set bytes a, opening ++ bytes) :: entries', rfl,
      List.forall_mem_cons.mpr ⟨hset bytes hbytes, hread⟩, ?_, fun other hother => ?_⟩
    · rw [List.map_cons, List.map_cons, hblank, φ.blank_set hbytes]
    · have hsame : (opening ++ φ.get a).length = (opening ++ bytes).length := by
        rw [List.length_append, List.length_append, hbytes]
      rw [entryRoles, List.flatMap_cons, ← entryRoles, pick_append (hfirst.trans hsame), hpick other
        hother, pick_endingIn hother (hlength.trans hbytes.symm) hsame.symm, pick_replicate hbytes]
      split
      · rw [List.flatMap_cons, φ.get_set]
      · rfl

/-- Items that are read together with their bytes have the bytes that they are read from. -/
theorem captures_of_forall₂ {pieces : List (List UInt8)} (hitem : Lawful item)
    (h : List.Forall₂ (captured item).Reads pieces entries) :
    pieces = entries.map Prod.snd ∧ Captures item entries := by
  induction h with
  | nil => exact ⟨rfl, List.forall_mem_nil _⟩
  | @cons piece p pieces later hp _ ih =>
    obtain ⟨hread, hused⟩ := Reads.of_captured hitem hp
    exact ⟨by rw [List.map_cons, hused, ih.1], List.forall_mem_cons.mpr ⟨hused ▸ hread, ih.2⟩⟩

theorem map_fst_captured (item : Reader α) : Prod.fst <$> captured item = item := by
  funext input
  rw [map_eq_bind, bind_apply, captured]
  cases item input <;> rfl

/-- A vector can be read with the bytes of its entries. -/
theorem vec_eq_map_captured (item : Reader α) (payload : List UInt8) :
    vec item payload =
      (vec (captured item) payload).map fun p => (p.1.map Prod.fst, p.2) := by
  conv_lhs => rw [← map_fst_captured item, vec_map, map_eq_bind, bind_apply]
  cases vec (captured item) payload <;> rfl

/-- The bytes of a vector are those of its count, of its entries, and those left unread. -/
theorem exists_of_vec_captured (hitem : Lawful item)
    (h : vec (captured item) payload = .ok (entries, unread)) :
    ∃ n count, payload = count ++ (entries.flatMap Prod.snd ++ unread) ∧
      Leb128.u32.Reads count n ∧ entries.length = n.toNat ∧ Captures item entries := by
  obtain ⟨used, rfl, hused⟩ := (lawful_vec hitem.captured).ok h
  obtain ⟨n, count, pieces, rfl, hcount, hlength, hpieces⟩ := hused.exists_of_vec hitem.captured
  obtain ⟨rfl, hcaptures⟩ := captures_of_forall₂ hitem hpieces
  refine ⟨n, count, ?_, hcount, hlength, hcaptures⟩
  rw [List.append_assoc, List.flatMap_def]

theorem Captures.reads_vec (h : Captures item entries) {n : UInt32} {count : List UInt8}
    (hcount : Leb128.u32.Reads count n) (hlength : entries.length = n.toNat) :
    (vec (captured item)).Reads (count ++ entries.flatMap Prod.snd) entries := by
  refine hcount.bind ?_
  rw [← hlength]
  exact .many fun p hp => (h p hp).captured

/-- **A vector whose entries are overwritten** is read with the new bytes in their fields. -/
theorem EndsIn.exists_of_overwrites_vec (hφ : item.EndsIn φ) (hitem : Lawful item)
    (hrole : role ≠ .format) (h : vec (captured item) payload = .ok (entries, unread)) :
    (vecRoles item φ role payload).length = payload.length ∧
      ∀ new, Overwrites (vecRoles item φ role payload) payload new →
        ∃ entries' unread', vec (captured item) new = .ok (entries', unread') ∧
          unread'.length = unread.length ∧
          entries'.map (φ.blank ·.1) = entries.map (φ.blank ·.1) ∧
          ∀ other, other.IsKept → pick other (vecRoles item φ role payload) new =
            if other = role then entries'.flatMap (φ.get ·.1) else [] := by
  obtain ⟨n, count, hpayload, hcount, hlength, hcaptures⟩ := exists_of_vec_captured hitem h
  have hentries : (entryRoles φ role entries).length = (entries.flatMap Prod.snd).length :=
    length_entryRoles hφ hcaptures
  have hback : (entryRoles φ role entries ++ List.replicate unread.length Role.ignored).length =
      (entries.flatMap Prod.snd ++ unread).length := by
    rw [List.length_append, hentries, List.length_replicate, List.length_append]
  rw [vecRoles, h]
  dsimp only
  refine ⟨Role.length_endingIn (by rw [hback, hpayload]; simp), fun new hnew => ?_⟩
  rw [hpayload] at hnew
  obtain ⟨_, rfl, hbehind⟩ := (Overwrites.endingIn_iff hback).mp hnew
  obtain ⟨_, unread', rfl, hread, hunread⟩ := (Overwrites.append_iff hentries).mp hbehind
  have hsame := hread.length_eq
  obtain ⟨entries', rfl, hcaptures', hblank, hpick⟩ :=
    hφ.exists_of_overwrites hrole hcaptures hread
  have hlength' : entries'.length = n.toNat := by
    rw [← hlength, ← List.length_map, hblank, List.length_map]
  refine ⟨entries', unread', ?_, hunread.length_eq, hblank, fun other hother => ?_⟩
  · rw [← List.append_assoc]
    exact hcaptures'.reads_vec hcount hlength' unread'
  · have hlater := hunread.length_eq
    rw [pick_endingIn hother.ne_format (by simp [hentries, hsame, hlater])
      (by simp [hpayload, hsame, hlater]), pick_append (hentries.trans hsame.symm),
      hpick other hother.ne_format, pick_replicate_of_ne hother.ne_ignored.symm, List.append_nil]

theorem mem_entryRoles {other : Role} (h : other ∈ entryRoles φ role entries) :
    other = .format ∨ other = role := by
  obtain ⟨p, -, hp⟩ := List.mem_flatMap.mp h
  exact (Role.mem_endingIn hp).imp_right List.eq_of_mem_replicate

/-- A vector with nothing left behind it has no other bytes than those of its entries. -/
theorem mem_vecRoles {other : Role} (h : vec (captured item) payload = .ok (entries, []))
    (hother : other ∈ vecRoles item φ role payload) : other = .format ∨ other = role := by
  rw [vecRoles, h] at hother
  rcases Role.mem_endingIn hother with hformat | hmem
  · exact .inl hformat
  · rw [List.length_nil, List.replicate_zero, List.append_nil] at hmem
    exact mem_entryRoles hmem

/-! ### Bytes that are left unread -/

section Unread

variable {r : Reader α} {a : α}

/-- The roles of the bytes that an item is read from, and of those that are left unread. -/
def readRoles (r : Reader α) (payload : List UInt8) : List Role :=
  match r payload with
  | .ok (_, unread) => Role.endingIn payload.length (List.replicate unread.length .ignored)
  | .error _ => List.replicate payload.length .format

/-- If nothing is left unread, all bytes belong to the format. -/
theorem mem_readRoles {role : Role} (h : r payload = .ok (a, []))
    (hrole : role ∈ readRoles r payload) : role = .format := by
  rw [readRoles, h] at hrole
  rcases Role.mem_endingIn hrole with hformat | hmem
  · exact hformat
  · cases hmem

/-- Bytes that are left unread have no influence. -/
theorem exists_of_overwrites_read (hr : Lawful r) (h : r payload = .ok (a, unread)) :
    (readRoles r payload).length = payload.length ∧
      ∀ new, Overwrites (readRoles r payload) payload new →
        (∃ unread', r new = .ok (a, unread') ∧ unread'.length = unread.length) ∧
          ∀ role, role.IsKept → pick role (readRoles r payload) new = [] := by
  obtain ⟨used, rfl, hused⟩ := hr.ok h
  rw [readRoles, h]
  dsimp only
  refine ⟨Role.length_endingIn (by simp), fun new hnew => ?_⟩
  obtain ⟨unread', rfl, hunread⟩ := (Overwrites.endingIn_iff List.length_replicate).mp hnew
  have hlength := hunread.length_eq
  refine ⟨⟨unread', hused unread', hlength⟩, fun role hrole => ?_⟩
  rw [pick_endingIn hrole.ne_format (by rw [List.length_replicate, hlength])
    (by rw [List.length_append, List.length_append, hlength]),
    pick_replicate_of_ne hrole.ne_ignored.symm]

end Unread

end Reader

end WasmContract
