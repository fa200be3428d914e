import EventLog.Proofs.Fields.Edits

/-!
# Fields in slots

Most fields have one value.  A field in slots keeps the first value in a place of its own, and the
others in a list behind it, where they are one place further in front (`Field.Slots`).  Edited in
the same way, it is the same field: it gives the same answers to edits (`Slots.toField_edit`), and
what is asked of it has the same answers too (`Slots.Shows`).

* `isBuilt_edited`: so a field behind edits is known by them, in slots or not.
-/

namespace EventLog.Field

/-- A field with a place for the first value. -/
structure Slots where
  name : Option Text
  first : Option Value
  overflow : List Value
  /-- Without a first value there are no others. -/
  behind : first = none → overflow = []
  bounded : overflow.length < maxValues

namespace Slots

/-- A field without name and values. -/
def empty : Slots := ⟨none, none, [], fun _ => rfl, by decide⟩

/-- The number of values. -/
def count (s : Slots) : Nat :=
  match s.first with
  | some _ => 1 + s.overflow.length
  | none   => 0

theorem count_of_unset {s : Slots} (unset : s.first = none) : s.count = 0 := by
  rw [count, unset]

theorem count_of_set {s : Slots} (set : s.first ≠ none) : s.count = s.overflow.length + 1 := by
  obtain ⟨v, first⟩ := Option.ne_none_iff_exists'.mp set
  rw [count, first, Nat.add_comm]

/-- Names a field that has no name. -/
def setName (s : Slots) (name : Text) : Except EventError Slots :=
  match s.name with
  | some old => .error (.fieldAlreadyNamed old)
  | none     => .ok { s with name := some name }

/-- Adds a value behind the others, or as the first one. -/
def add (s : Slots) (v : Value) : Except EventError Slots :=
  if first : s.first = none then .ok { s with first := some v, behind := nofun }
  else if room : s.count < maxValues then
    .ok { s with
      overflow := s.overflow ++ [v]
      behind := fun none => absurd none first
      bounded := by
        rw [List.length_append]
        rwa [count_of_set first] at room }
  else .error (.tooManyValues (s.name.getD []) maxValues)

/-- The value at a place, counted from 0. -/
def value? (s : Slots) : Nat → Option Value
  | 0     => s.first
  | n + 1 => s.overflow[n]?

/-- The values in order. -/
def values (s : Slots) : List Value := s.first.toList ++ s.overflow

/-- The texts of the values, one right behind the other. -/
def text (s : Slots) : Text := s.values.flatMap Value.text

/-- One edit. -/
def edit (s : Slots) : Edit → Except EventError Slots
  | .name n    => s.setName n
  | .add v     => s.add v
  | .addText t => s.add (.string t)

/-- The field behind an edit; what is refused changes nothing. -/
def afterEdit (s : Slots) (e : Edit) : Slots :=
  match s.edit e with
  | .ok s    => s
  | .error _ => s

/-- The field behind edits. -/
def edited (s : Slots) (edits : List Edit) : Slots := edits.foldl afterEdit s

/-- The field without its slots. -/
def toField (s : Slots) : Field := ⟨s.name, s.values⟩

/-! ### Answers -/

/-- A field in slots has the same name, number of values, values and text as a field. -/
structure Shows (s : Slots) (f : Field) : Prop where
  name : s.name = f.name
  count : s.count = f.values.length
  value : ∀ i, s.value? i = f.value? i
  valueText : ∀ i, (s.value? i).map Value.text = f.texts[i]?
  values : s.values = f.values
  text : s.text = f.text

theorem count_eq (s : Slots) : s.count = s.values.length := by
  by_cases unset : s.first = none
  · rw [count_of_unset unset, values, unset, s.behind unset]
    rfl
  · obtain ⟨v, first⟩ := Option.ne_none_iff_exists'.mp unset
    rw [count_of_set unset, values, first]
    rfl

theorem value?_eq (s : Slots) (i : Nat) : s.value? i = s.values[i]? := by
  rw [values]
  cases first : s.first with
  | none => cases i <;> simp [value?, first, s.behind first]
  | some v => cases i <;> simp [value?, first]

theorem shows_toField (s : Slots) : s.Shows s.toField :=
  ⟨rfl, s.count_eq, s.value?_eq, fun i => by rw [s.value?_eq, texts, List.getElem?_map]; rfl, rfl,
    List.flatMap_def ..⟩

/-! ### Edits -/

theorem toField_setName (s : Slots) (name : Text) :
    (s.setName name).map toField = s.toField.setName name := by
  rw [setName, Field.setName, toField]
  cases s.name <;> rfl

theorem toField_add (s : Slots) (v : Value) : (s.add v).map toField = s.toField.add v := by
  rw [add, Field.add, toField, ← count_eq]
  by_cases unset : s.first = none
  · -- A field without values is never full.
    have room : s.count < maxValues := by
      rw [count_of_unset unset]
      decide
    rw [dif_pos unset, if_pos room]
    simp [Except.map, toField, values, unset, s.behind unset]
  · rw [dif_neg unset]
    by_cases room : s.count < maxValues
    · rw [dif_pos room, if_pos room]
      simp [Except.map, toField, values]
    · rw [dif_neg room, if_neg room]
      rfl

/-- An edit has the same answer in slots. -/
theorem toField_edit (s : Slots) (e : Edit) : (s.edit e).map toField = s.toField.edit e := by
  cases e with
  | name n => exact s.toField_setName n
  | add v => exact s.toField_add v
  | addText t => exact s.toField_add (.string t)

theorem toField_afterEdit (s : Slots) (e : Edit) :
    (s.afterEdit e).toField = s.toField.afterEdit e := by
  rw [afterEdit, Field.afterEdit, ← toField_edit]
  cases s.edit e <;> rfl

theorem toField_edited (s : Slots) (edits : List Edit) :
    (s.edited edits).toField = s.toField.edited edits := by
  induction edits generalizing s with
  | nil => rfl
  | cons e edits ih => exact (ih (s.afterEdit e)).trans (by rw [toField_afterEdit]; rfl)

/-! ### What is built -/

/-- What is known of a field behind edits, in slots or not. -/
structure IsBuilt (edits : List Edit) (s : Slots) (f : Field) : Prop where
  /-- It has the first name and the first values. -/
  field : f = ⟨(Edit.names edits).head?, (Edit.values edits).take maxValues⟩
  bounded : f.values.length ≤ maxValues
  /-- However it is stored, it shows the same. -/
  shows : s.Shows f
  /-- However it is stored, it gives the same answers to edits. -/
  answers : ∀ e, (s.edit e).map toField = f.edit e
  /-- A second name is refused. -/
  setName : ∀ name, f.setName name =
    match (Edit.names edits).head? with
    | some old => .error (.fieldAlreadyNamed old)
    | none     => .ok { f with name := some name }
  /-- A value too many is refused. -/
  add : ∀ v, f.add v =
    if (Edit.values edits).length < maxValues then .ok { f with values := f.values ++ [v] }
    else .error (.tooManyValues f.label maxValues)

theorem isBuilt_edited (edits : List Edit) :
    IsBuilt edits (empty.edited edits) (Field.empty.edited edits) := by
  have same : (empty.edited edits).toField = Field.empty.edited edits := toField_edited _ edits
  refine ⟨edited_empty edits, ?_, ?_, fun e => ?_, fun name => ?_, fun v => ?_⟩
  · rw [edited_empty]
    exact List.length_take_le _ _
  · rw [← same]
    exact shows_toField _
  · rw [← same]
    exact toField_edit _ e
  · rw [edited_empty]
    rfl
  · have room : (Field.empty.edited edits).values.length < maxValues ↔
        (Edit.values edits).length < maxValues := by
      rw [edited_empty, List.length_take]
      omega
    rw [Field.add]
    simp only [room, label]

end Slots

end EventLog.Field
