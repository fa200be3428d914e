import EventLog.Field

/-!
# Fields behind edits

A field is edited by naming it and by adding values.  What becomes of it is the first name it was
given and the first 255 values, whichever way the edits are mixed (`Field.edited_empty`).
-/

namespace EventLog.Field

/-- What is done to a field. -/
inductive Edit where
  | name (name : Text)
  | add (v : Value)
  /-- A text is added as a value. -/
  | addText (t : Text)
deriving Repr, DecidableEq

/-- The name that an edit gives. -/
def Edit.name? : Edit → Option Text
  | name n => some n
  | _      => none

/-- The value that an edit adds. -/
def Edit.value? : Edit → Option Value
  | name _    => none
  | add v     => some v
  | addText t => some (.string t)

/-- The names that edits give, in order. -/
def Edit.names (edits : List Edit) : List Text := edits.filterMap Edit.name?

/-- The values that edits add, in order. -/
def Edit.values (edits : List Edit) : List Value := edits.filterMap Edit.value?

/-- One edit. -/
def edit (f : Field) : Edit → Except EventError Field
  | .name n    => f.setName n
  | .add v     => f.add v
  | .addText t => f.add (.string t)

/-- The field behind an edit; what is refused changes nothing. -/
def afterEdit (f : Field) (e : Edit) : Field :=
  match f.edit e with
  | .ok f    => f
  | .error _ => f

/-- The field behind edits. -/
def edited (f : Field) (edits : List Edit) : Field := edits.foldl afterEdit f

variable {f : Field}

theorem edited_append (f : Field) (edits further : List Edit) :
    f.edited (edits ++ further) = (f.edited edits).edited further :=
  List.foldl_append

/-- A name is taken if there is none. -/
theorem afterEdit_name (f : Field) (name : Text) :
    f.afterEdit (.name name) = ⟨f.name <|> some name, f.values⟩ := by
  obtain ⟨old, values⟩ := f
  cases old <;> rfl

/-- A value never changes the name. -/
@[simp] theorem name_afterEdit_add (f : Field) (v : Value) :
    (f.afterEdit (.add v)).name = f.name := by
  rw [afterEdit, edit, add]
  by_cases room : f.values.length < maxValues
  · rw [if_pos room]
  · rw [if_neg room]

/-- A value is taken if there is room. -/
theorem afterEdit_add (hf : f.values.length ≤ maxValues) (v : Value) :
    f.afterEdit (.add v) = ⟨f.name, (f.values ++ [v]).take maxValues⟩ := by
  rw [afterEdit, edit, add]
  by_cases room : f.values.length < maxValues
  · rw [if_pos room, List.take_of_length_le (by rw [List.length_append]; exact room)]
  · rw [if_neg room, List.take_append_of_le_length (Nat.le_of_not_lt room),
      List.take_of_length_le hf]

/-- Cutting what is in front does not change what is cut off the whole. -/
theorem take_take_append {α : Type} (n : Nat) (l l' : List α) :
    (l.take n ++ l').take n = (l ++ l').take n := by
  rw [List.take_append, List.take_append, List.take_take, Nat.min_self, List.length_take]
  congr 2
  omega

theorem edited_eq (hf : f.values.length ≤ maxValues) (edits : List Edit) :
    f.edited edits =
      ⟨f.name <|> (Edit.names edits).head?,
        (f.values ++ Edit.values edits).take maxValues⟩ := by
  induction edits generalizing f with
  | nil => simp [edited, Edit.names, Edit.values, List.take_of_length_le hf]
  | cons e edits ih =>
      have first : f.edited (e :: edits) = (f.afterEdit e).edited edits := rfl
      rw [first]
      cases e with
      | name n =>
          have named := ih (f := ⟨f.name <|> some n, f.values⟩) hf
          rw [afterEdit_name, named]
          cases f.name <;> rfl
      | add v =>
          rw [afterEdit_add hf, ih (List.length_take_le _ _), take_take_append, List.append_assoc]
          rfl
      | addText t =>
          have text : f.afterEdit (.addText t) = f.afterEdit (.add (.string t)) := rfl
          rw [text, afterEdit_add hf, ih (List.length_take_le _ _), take_take_append,
            List.append_assoc]
          rfl

/-- **A field behind edits** has the first name that it was given, and the first values, as many as
there is room for. -/
theorem edited_empty (edits : List Edit) :
    empty.edited edits = ⟨(Edit.names edits).head?, (Edit.values edits).take maxValues⟩ :=
  edited_eq (Nat.zero_le _) edits

end EventLog.Field
