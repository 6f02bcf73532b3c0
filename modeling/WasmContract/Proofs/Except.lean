/-!
# Results of computations that may fail

When a compound computation succeeds or fails, in terms of its parts.
-/

namespace Except

variable {ε ε' α β : Type} {x : Except ε α} {f : α → Except ε β} {g : α → β} {h : ε → ε'} {a : α}
  {b : β} {e : ε}

@[simp] theorem ok_bind (a : α) (f : α → Except ε β) : (ok a).bind f = f a := rfl

@[simp] theorem error_bind (e : ε) (f : α → Except ε β) : (error e).bind f = error e := rfl

@[simp] theorem ok_map (g : α → β) (a : α) : (ok a : Except ε α).map g = ok (g a) := rfl

@[simp] theorem error_map (g : α → β) (e : ε) : (error e : Except ε α).map g = error e := rfl

@[simp] theorem ok_mapError (h : ε → ε') (a : α) : (ok a).mapError h = ok a := rfl

@[simp] theorem error_mapError (h : ε → ε') (e : ε) :
    (error e : Except ε α).mapError h = error (h e) := rfl

theorem bind_eq_ok_iff : x.bind f = ok b ↔ ∃ a, x = ok a ∧ f a = ok b := by
  cases x <;> simp

theorem bind_eq_error_iff : x.bind f = error e ↔ x = error e ∨ ∃ a, x = ok a ∧ f a = error e := by
  cases x <;> simp

theorem map_eq_ok_iff : x.map g = ok b ↔ ∃ a, x = ok a ∧ g a = b := by
  cases x <;> simp

theorem map_eq_error_iff : x.map g = error e ↔ x = error e := by
  cases x <;> simp

/-! ### Results one after the other -/

section Sequence

variable {results : List (Except ε α)} {values : List α}

theorem mapM_id_cons (x : Except ε α) (later : List (Except ε α)) :
    (x :: later).mapM id = x.bind fun a => (later.mapM id).map (a :: ·) := by
  rw [List.mapM_cons]
  cases x with
  | error e => rfl
  | ok a => cases later.mapM id <;> rfl

/-- Results in a row succeed if all of them do. -/
theorem mapM_id_eq_ok_iff : results.mapM id = ok values ↔ results = values.map ok := by
  induction results generalizing values with
  | nil =>
    rw [List.mapM_nil, eq_comm (a := []), List.map_eq_nil_iff]
    exact ⟨fun h => (ok.inj h).symm, fun h => congrArg ok h.symm⟩
  | cons x later ih =>
    rw [mapM_id_cons, bind_eq_ok_iff]
    simp only [map_eq_ok_iff, ih]
    constructor
    · rintro ⟨a, rfl, others, rfl, rfl⟩
      rfl
    · intro h
      obtain ⟨a, others, rfl, hx, hlater⟩ := List.map_eq_cons_iff.mp h.symm
      exact ⟨a, hx.symm, others, hlater.symm, rfl⟩

/-- Results in a row fail with the first error among them. -/
theorem mapM_id_eq_error_iff : results.mapM id = error e ↔
    ∃ (values : List α) (later : List (Except ε α)),
      results = values.map ok ++ error e :: later := by
  induction results with
  | nil => simp [pure, Except.pure]
  | cons x others ih =>
    rw [mapM_id_cons, bind_eq_error_iff]
    simp only [map_eq_error_iff, ih]
    constructor
    · rintro (rfl | ⟨a, rfl, values, later, rfl⟩)
      · exact ⟨[], others, rfl⟩
      · exact ⟨a :: values, later, rfl⟩
    · rintro ⟨values, later, h⟩
      cases values with
      | nil =>
        obtain ⟨rfl, -⟩ := List.cons.inj h
        exact .inl rfl
      | cons a values =>
        obtain ⟨rfl, hothers⟩ := List.cons.inj h
        exact .inr ⟨a, rfl, values, later, hothers⟩

end Sequence

end Except
