import Mathlib.Data.List.Basic
import WasmContract.FuncType

/-!
# The text of function types

A function type can be told from its text (`FuncType.text_injective`), which is read back from the
left. A name ends at the next space or closing parenthesis, for no name has one
(`ValueType.name_append_inj`). A list of types ends at its closing parenthesis, and whether there is
a list at all shows in the words that open it (`FuncType.groupText_append_inj`).
-/

namespace WasmContract

/-! ### Names -/

/-- A character that may stand in the name of a value type. -/
def NameChar (c : Char) : Prop := c ≠ ' ' ∧ c ≠ ')'

instance : DecidablePred NameChar := fun _ => inferInstanceAs (Decidable (_ ∧ _))

/-- A text that no name goes on in. -/
def EndsName (text : List Char) : Prop := ∃ c rest, text = c :: rest ∧ ¬NameChar c

theorem EndsName.cons {c : Char} (h : ¬NameChar c) (rest : List Char) : EndsName (c :: rest) :=
  ⟨c, rest, rfl, h⟩

namespace ValueType

variable {a b : ValueType} {x y : List Char}

/-- Value types have different names. -/
theorem name_inj (h : a.name = b.name) : a = b := by
  cases a <;> cases b <;> first | rfl | exact absurd h (by decide)

/-- No name has a space or a parenthesis that closes. -/
theorem nameChar_of_mem_name {c : Char} (hc : c ∈ a.name.toList) : NameChar c := by
  have hall : a.name.toList.all (NameChar ·) := by cases a <;> decide
  exact of_decide_eq_true (List.all_eq_true.mp hall c hc)

/-- A name is what stands before the first character that is not in names. -/
theorem takeWhile_name_append (hx : EndsName x) :
    (a.name.toList ++ x).takeWhile (NameChar ·) = a.name.toList := by
  obtain ⟨c, rest, rfl, hc⟩ := hx
  rw [List.takeWhile_append_of_pos fun c hc => decide_eq_true (nameChar_of_mem_name hc),
    List.takeWhile_cons_of_neg (by simpa using hc), List.append_nil]

/-- A name that is followed by no further character of a name can be told. -/
theorem name_append_inj (hx : EndsName x) (hy : EndsName y)
    (h : a.name.toList ++ x = b.name.toList ++ y) : a = b ∧ x = y := by
  have hname := congrArg (List.takeWhile (NameChar ·)) h
  rw [takeWhile_name_append hx, takeWhile_name_append hy] at hname
  obtain rfl := name_inj (String.toList_inj.mp hname)
  exact ⟨rfl, List.append_cancel_left h⟩

/-- The names of types, each behind a space. -/
def listed (types : List ValueType) : List Char := types.flatMap fun t => ' ' :: t.name.toList

theorem listed_cons (t : ValueType) (later : List ValueType) :
    listed (t :: later) = ' ' :: (t.name.toList ++ listed later) :=
  List.flatMap_cons

/-- Behind a name there comes the next one or the end of the list. -/
theorem endsName_listed (types : List ValueType) (x : List Char) :
    EndsName (listed types ++ ')' :: x) := by
  cases types with
  | nil => exact .cons (by decide) x
  | cons t later =>
    rw [listed_cons]
    exact .cons (by decide) _

/-- A list of types ends at the closing parenthesis. -/
theorem listed_append_inj {ts us : List ValueType}
    (h : listed ts ++ ')' :: x = listed us ++ ')' :: y) : ts = us ∧ x = y := by
  induction ts generalizing us with
  | nil =>
    cases us with
    | nil => exact ⟨rfl, (List.cons.inj h).2⟩
    | cons u us => cases h
  | cons t ts ih =>
    cases us with
    | nil => cases h
    | cons u us =>
      rw [listed_cons, listed_cons, List.cons_append, List.cons_append, List.append_assoc,
        List.append_assoc] at h
      obtain ⟨rfl, hlater⟩ := name_append_inj (endsName_listed ts x) (endsName_listed us y)
        (List.cons.inj h).2
      obtain ⟨rfl, hrest⟩ := ih hlater
      exact ⟨rfl, hrest⟩

end ValueType

/-! ### Groups -/

namespace FuncType

open ValueType

variable {heading : String} {ts us : List ValueType} {x y : List Char}

/-- The words that open a group. -/
def opening (heading : String) : List Char := ' ' :: '(' :: heading.toList

/-- A group is opened, lists its types and is closed; without types there is none. -/
theorem toList_groupText (heading : String) (types : List ValueType) :
    (groupText heading types).toList =
      if types = [] then [] else opening heading ++ listed types ++ [')'] := by
  have hlisted : (types.foldr (fun t text => " " ++ t.name ++ text) ")").toList =
      listed types ++ [')'] := by
    induction types with
    | nil => rfl
    | cons t later ih => simp [listed_cons, ih]
  rw [groupText]
  by_cases hnil : types = []
  · rw [hnil]
    rfl
  · rw [if_neg hnil, if_neg (by simpa using hnil), String.toList_append, hlisted,
      ← List.append_assoc, String.toList_append]
    rfl

/-- A group can be told, if what follows it does not open with the words of the group. -/
theorem groupText_append_inj (hx : ¬opening heading <+: x) (hy : ¬opening heading <+: y)
    (h : (groupText heading ts).toList ++ x = (groupText heading us).toList ++ y) :
    ts = us ∧ x = y := by
  rw [toList_groupText, toList_groupText] at h
  by_cases hts : ts = [] <;> by_cases hus : us = []
  · rw [if_pos hts, if_pos hus] at h
    exact ⟨hts.trans hus.symm, h⟩
  · rw [if_pos hts, if_neg hus, List.nil_append, List.append_assoc, List.append_assoc] at h
    exact absurd ⟨_, h.symm⟩ hx
  · rw [if_neg hts, if_pos hus, List.nil_append, List.append_assoc, List.append_assoc] at h
    exact absurd ⟨_, h⟩ hy
  · rw [if_neg hts, if_neg hus] at h
    simp only [List.append_assoc] at h
    exact listed_append_inj (List.append_cancel_left h)

theorem toList_text (t : FuncType) :
    t.text.toList = '(' :: (t.form.name.toList ++ ((groupText "param" t.params).toList ++
      ((groupText "result" t.results).toList ++ [')']))) := by
  simp [text]

/-- What follows a list of parameters does not open with the words of such a list. -/
theorem not_opening_param (results : List ValueType) :
    ¬opening "param" <+: (groupText "result" results).toList ++ [')'] := by
  rw [toList_groupText]
  split
  · decide
  · rintro ⟨rest, h⟩
    have hthird := congrArg (·[2]?) h
    simp [opening] at hthird

/-- A name ends before the lists, if there are any, and else at the closing parenthesis. -/
theorem endsName_groups (params results : List ValueType) :
    EndsName ((groupText "param" params).toList ++
      ((groupText "result" results).toList ++ [')'])) := by
  rw [toList_groupText, toList_groupText]
  split
  · split
    · exact .cons (by decide) _
    · exact .cons (by decide) _
  · exact .cons (by decide) _

/-- **Function types can be told from their texts.** -/
theorem text_injective : Function.Injective text := by
  rintro ⟨form, params, results⟩ ⟨form', params', results'⟩ h
  have htext := congrArg String.toList h
  rw [toList_text, toList_text] at htext
  dsimp only at htext
  obtain ⟨rfl, hgroups⟩ := name_append_inj (endsName_groups params results)
    (endsName_groups params' results') (List.cons.inj htext).2
  obtain ⟨rfl, hlast⟩ := groupText_append_inj (not_opening_param results)
    (not_opening_param results') hgroups
  have hend : ¬opening "result" <+: [')'] := by decide
  obtain ⟨rfl, -⟩ := groupText_append_inj hend hend hlast
  rfl

end FuncType

end WasmContract
