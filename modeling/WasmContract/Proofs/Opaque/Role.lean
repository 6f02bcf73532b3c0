import Mathlib.Data.List.Basic

/-!
# The roles of bytes

Some bytes of a module are read for what they say, and others are kept as they are found or passed
over. A list of roles, one for each byte, tells them apart. Bytes are overwritten (`Overwrites`)
when each one that is read for what it says stays as it is; the others may change freely, but none
is added or removed. `pick` collects the bytes of one role.

Both go through the pieces of which bytes are put together. An item that keeps bytes has them at its
end, behind the bytes of its format (`Role.endingIn`).
-/

namespace WasmContract

/-- What a byte of a module is there for. -/
inductive Role where
  /-- It is read for what it says. -/
  | format
  /-- It is part of the code of a function. -/
  | code
  /-- It is part of the data of a segment. -/
  | data
  /-- It is part of the content of a custom section, and the name of the section gives it no
  meaning. -/
  | content
  /-- It is passed over. -/
  | ignored
deriving DecidableEq, Repr, Inhabited

namespace Role

/-- Bytes of this role are kept as they are found. -/
def IsKept (role : Role) : Prop := role = code ∨ role = data ∨ role = content

theorem IsKept.ne_format {role : Role} (h : role.IsKept) : role ≠ format := by
  rintro rfl
  rcases h with h | h | h <;> cases h

theorem IsKept.ne_ignored {role : Role} (h : role.IsKept) : role ≠ ignored := by
  rintro rfl
  rcases h with h | h | h <;> cases h

/-- The roles of a number of bytes, of which the last have the given roles, and all before them are
part of the format. -/
def endingIn (total : Nat) (roles : List Role) : List Role :=
  List.replicate (total - roles.length) format ++ roles

theorem endingIn_append {front back : List UInt8} {roles : List Role}
    (h : roles.length = back.length) :
    endingIn (front ++ back).length roles = List.replicate front.length format ++ roles := by
  rw [endingIn, List.length_append, h, Nat.add_sub_cancel]

theorem length_endingIn {total : Nat} {roles : List Role} (h : roles.length ≤ total) :
    (endingIn total roles).length = total := by
  rw [endingIn, List.length_append, List.length_replicate, Nat.sub_add_cancel h]

theorem mem_endingIn {total : Nat} {roles : List Role} {role : Role}
    (h : role ∈ endingIn total roles) : role = format ∨ role ∈ roles :=
  (List.mem_append.mp h).imp_left List.eq_of_mem_replicate

end Role

/-- The new bytes are the old ones, with the exception of some whose role is not the format. -/
structure Overwrites (roles : List Role) (old new : List UInt8) : Prop where
  /-- There are as many bytes as before. -/
  length_eq : new.length = old.length
  /-- The bytes of the format stay as they are. -/
  format : ∀ i : Nat, roles[i]? = some Role.format → new[i]? = old[i]?

variable {roles later : List Role} {old new front back : List UInt8} {role : Role} {n : Nat}

namespace Overwrites

instance (roles : List Role) (old new : List UInt8) : Decidable (Overwrites roles old new) :=
  decidable_of_iff (new.length = old.length ∧
      ∀ i < roles.length, roles[i]? = some Role.format → new[i]? = old[i]?)
    ⟨fun h => ⟨h.1, fun i hi => h.2 i (List.getElem?_eq_some_iff.mp hi).1 hi⟩,
      fun h => ⟨h.length_eq, fun i _ hi => h.format i hi⟩⟩

protected theorem refl (roles : List Role) (bytes : List UInt8) : Overwrites roles bytes bytes :=
  ⟨rfl, fun _ _ => rfl⟩

/-- Bytes that are put together are overwritten in each part. -/
theorem append_iff (h : roles.length = front.length) :
    Overwrites (roles ++ later) (front ++ back) new ↔
      ∃ front' back', new = front' ++ back' ∧ Overwrites roles front front' ∧
        Overwrites later back back' := by
  constructor
  · intro hnew
    have hlength := hnew.length_eq
    rw [List.length_append] at hlength
    refine ⟨new.take front.length, new.drop front.length, (List.take_append_drop ..).symm, ?_, ?_⟩
    · refine ⟨by rw [List.length_take]; omega, fun i hi => ?_⟩
      have hlt : i < front.length := h ▸ (List.getElem?_eq_some_iff.mp hi).1
      have hkeep := hnew.format i (by rwa [List.getElem?_append_left (h ▸ hlt)])
      rwa [List.getElem?_append_left hlt, ← List.getElem?_take_of_lt hlt] at hkeep
    · refine ⟨by rw [List.length_drop]; omega, fun i hi => ?_⟩
      have hkeep := hnew.format (front.length + i) (by
        rwa [List.getElem?_append_right (h ▸ Nat.le_add_right ..), h, Nat.add_sub_cancel_left])
      rwa [List.getElem?_append_right (Nat.le_add_right ..), Nat.add_sub_cancel_left,
        ← List.getElem?_drop] at hkeep
  · rintro ⟨front', back', rfl, hfront, hback⟩
    refine ⟨by rw [List.length_append, hfront.length_eq, hback.length_eq, List.length_append],
      fun i hi => ?_⟩
    by_cases hlt : i < front.length
    · rw [List.getElem?_append_left (h ▸ hlt)] at hi
      rw [List.getElem?_append_left (hfront.length_eq ▸ hlt), List.getElem?_append_left hlt]
      exact hfront.format i hi
    · have hle := Nat.le_of_not_lt hlt
      rw [List.getElem?_append_right (h ▸ hle), h] at hi
      rw [List.getElem?_append_right (hfront.length_eq ▸ hle), List.getElem?_append_right hle,
        hfront.length_eq]
      exact hback.format _ hi

/-- Bytes of the format cannot be overwritten. -/
theorem replicate_format_iff (bytes : List UInt8) :
    Overwrites (List.replicate bytes.length .format) bytes new ↔ new = bytes := by
  constructor
  · intro h
    refine List.ext_getElem? fun i => ?_
    by_cases hi : i < bytes.length
    · exact h.format i (List.getElem?_replicate_of_lt hi)
    · have hle := Nat.le_of_not_lt hi
      rw [List.getElem?_eq_none hle, List.getElem?_eq_none (h.length_eq ▸ hle)]
  · rintro rfl
    exact .refl _ _

/-- Bytes of another role can be overwritten by any bytes of their number. -/
theorem replicate_iff (h : role ≠ .format) :
    Overwrites (List.replicate n role) old new ↔ new.length = old.length := by
  refine ⟨length_eq, fun hlength => ⟨hlength, fun i hi => ?_⟩⟩
  obtain ⟨hlt, hrole⟩ := List.getElem?_eq_some_iff.mp hi
  rw [List.getElem_replicate] at hrole
  exact absurd hrole h

/-- Bytes that only end in others than those of the format are overwritten at their end. -/
theorem endingIn_iff (h : roles.length = back.length) :
    Overwrites (Role.endingIn (front ++ back).length roles) (front ++ back) new ↔
      ∃ back', new = front ++ back' ∧ Overwrites roles back back' := by
  rw [Role.endingIn_append h, append_iff List.length_replicate]
  simp only [replicate_format_iff]
  constructor
  · rintro ⟨_, back', rfl, rfl, hback⟩
    exact ⟨back', rfl, hback⟩
  · rintro ⟨back', rfl, hback⟩
    exact ⟨front, back', rfl, rfl, hback⟩

end Overwrites

/-- The bytes of a role, in order. -/
def pick (role : Role) (roles : List Role) (bytes : List UInt8) : List UInt8 :=
  ((roles.zip bytes).filter fun p => p.1 = role).map Prod.snd

theorem pick_append (h : roles.length = front.length) :
    pick role (roles ++ later) (front ++ back) = pick role roles front ++ pick role later back := by
  rw [pick, List.zip_append h, List.filter_append, List.map_append]
  rfl

/-- Bytes of the same role are picked all. -/
theorem pick_replicate_self (role : Role) (bytes : List UInt8) :
    pick role (List.replicate bytes.length role) bytes = bytes := by
  induction bytes with
  | nil => rfl
  | cons b rest ih =>
    rw [pick, List.length_cons, List.replicate_succ, List.zip_cons_cons, List.filter_cons_of_pos
      (by simp), List.map_cons, ← pick, ih]

/-- Bytes of another role are left out. -/
theorem pick_replicate_of_ne {other : Role} (h : other ≠ role) (n : Nat) (bytes : List UInt8) :
    pick role (List.replicate n other) bytes = [] := by
  induction n generalizing bytes with
  | zero => rfl
  | succ n ih =>
    cases bytes with
    | nil => rfl
    | cons b rest =>
      rw [pick, List.replicate_succ, List.zip_cons_cons, List.filter_cons_of_neg (by simpa using h),
        ← pick, ih]

/-- Of bytes of one role, all are picked or none. -/
theorem pick_replicate {other : Role} (h : old.length = n) :
    pick other (List.replicate n role) old = if other = role then old else [] := by
  by_cases heq : other = role
  · subst heq
    rw [if_pos rfl, ← h, pick_replicate_self]
  · rw [if_neg heq, pick_replicate_of_ne (Ne.symm heq)]

/-- Bytes that are kept are picked from the end. -/
theorem pick_endingIn (hrole : role ≠ .format) (h : roles.length = back.length)
    (htotal : (front ++ back).length = n) :
    pick role (Role.endingIn n roles) (front ++ back) = pick role roles back := by
  rw [← htotal, Role.endingIn_append h, pick_append List.length_replicate,
    pick_replicate_of_ne (Ne.symm hrole), List.nil_append]

end WasmContract
