import EventLog.Value

/-!
# Fields

A field has at most one name and up to 255 values, kept in the order they were added.  The name is
set once; a value that finds the field full is refused.
-/

namespace EventLog

/-- A name with its values. -/
structure Field where
  name : Option Text
  values : List Value
deriving Repr, DecidableEq

namespace Field

/-- The greatest number of values. -/
def maxValues : Nat := 255

/-- A field without name and values. -/
def empty : Field := ⟨none, []⟩

/-- A field with a name and no values. -/
def named (name : Text) : Field := ⟨some name, []⟩

/-- Names a field that has no name. -/
def setName (f : Field) (name : Text) : Except EventError Field :=
  match f.name with
  | some old => .error (.fieldAlreadyNamed old)
  | none     => .ok { f with name := some name }

/-- Adds a value behind the others. -/
def add (f : Field) (v : Value) : Except EventError Field :=
  if f.values.length < maxValues then .ok { f with values := f.values ++ [v] }
  else .error (.tooManyValues (f.name.getD []) maxValues)

/-- A value is added where there is room for it. -/
theorem add_eq_ok_iff {f f' : Field} {v : Value} :
    f.add v = .ok f' ↔
      f.values.length < maxValues ∧ f' = { f with values := f.values ++ [v] } := by
  rw [add]
  split <;> simp [*, eq_comm]

/-- No field that a value was added to has more values than there is room for. -/
theorem length_le_of_add {f f' : Field} {v : Value} (h : f.add v = .ok f') :
    f'.values.length ≤ maxValues := by
  obtain ⟨room, rfl⟩ := add_eq_ok_iff.mp h
  rw [List.length_append]
  exact room

/-- A field with a name and one value. -/
def single (name : Text) (v : Value) : Field := ⟨some name, [v]⟩

/-- The name that formats without unnamed fields write. -/
def label (f : Field) : Text := f.name.getD []

/-- Whether two fields have the same name, if any, and values that say the same, place by place. -/
def same (f g : Field) : Bool :=
  f.name = g.name && f.values.length = g.values.length &&
    (f.values.zip g.values).all fun (v, w) => v.same w

/-- The value at a place, counted from 0. -/
def value? (f : Field) (index : Nat) : Option Value := f.values[index]?

/-- The texts of the values. -/
def texts (f : Field) : List Text := f.values.map Value.text

/-- Texts that are made values are the texts of these. -/
@[simp] theorem texts_map_string (name : Option Text) (ts : List Text) :
    texts ⟨name, ts.map .string⟩ = ts := by
  rw [texts, List.map_map]
  exact List.map_id ts

/-- The texts of the values, one right behind the other. -/
def text (f : Field) : Text := f.texts.flatten

/-- Adds texts as values, one after the other. -/
def addTexts (f : Field) : List Text → Except EventError Field
  | []      => .ok f
  | t :: ts => do (← f.add (.string t)).addTexts ts

/-- Texts are added if there is room for all of them. -/
theorem addTexts_eq {ts : List Text} {f : Field} (hf : f.values.length ≤ maxValues) :
    f.addTexts ts =
      if f.values.length + ts.length ≤ maxValues then
        .ok { f with values := f.values ++ ts.map .string }
      else .error (.tooManyValues (f.name.getD []) maxValues) := by
  induction ts generalizing f with
  | nil => simp [addTexts, hf]
  | cons t ts ih =>
      by_cases room : f.values.length < maxValues
      · have ht : f.add (.string t) = .ok { f with values := f.values ++ [.string t] } :=
          add_eq_ok_iff.mpr ⟨room, rfl⟩
        have hlen : (f.values ++ [Value.string t]).length = f.values.length + 1 := by simp
        rw [addTexts, ht]
        refine (ih (by rw [hlen]; exact room)).trans ?_
        simp [Nat.add_comm 1, Nat.add_assoc]
      · rw [addTexts, add, if_neg room, List.length_cons, if_neg (by omega)]
        rfl

theorem addTexts_eq_ok_iff {ts : List Text} {f f' : Field} (hf : f.values.length ≤ maxValues) :
    f.addTexts ts = .ok f' ↔
      f.values.length + ts.length ≤ maxValues ∧
        f' = { f with values := f.values ++ ts.map .string } := by
  rw [addTexts_eq hf]
  split <;> simp [*, eq_comm]

end Field

/-! ### Collections of fields -/

namespace Fields

/-- The first field of a name. -/
def find? (name : Text) (fs : List Field) : Option Field := fs.find? fun f => f.name = some name

/-- The names of the named fields. -/
def names (fs : List Field) : List Text := fs.filterMap Field.name

/-- Adds a value to the first field of a name, if there is one. -/
def addTo (name : Text) (v : Value) : List Field → Option (Except EventError (List Field))
  | []      => none
  | f :: fs =>
    if f.name = some name then some ((f.add v).map (· :: fs))
    else (addTo name v fs).map fun r => r.map (f :: ·)

end Fields

end EventLog
