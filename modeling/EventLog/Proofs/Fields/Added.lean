import EventLog.Event
import EventLog.Proofs.Fields.Slots

/-!
# Fields of an event

Fields are added to an event one behind the other, and values are added to the first field of a
name.  Each field is what was done to it: its own edits, and the values that were added to it later,
if no field in front of it has its name (`Event.fields_run`).  None is lost, moved or joined with
another one, and the first field of a name stays the first one.

* `field?_run`: once there is a field of a name, nothing but a value for it changes what is found.
* `addTo_eq`: a value that finds its field full changes nothing.
* `fields_of_run`: all this together, for an event that fields have been added to.
-/

namespace EventLog

open EventLog.Field (Edit)

/-! ### The first field of a name -/

namespace Fields

variable {name n : Text} {v : Value} {f : Field} {fs : List Field}

theorem find?_cons (name : Text) (f : Field) (fs : List Field) :
    find? name (f :: fs) = if f.name = some name then some f else find? name fs := by
  rw [find?, List.find?_cons]
  split <;> simp_all [find?]

/-- The place of the first field of a name, or of none if there is none. -/
def place (name : Text) (fs : List Field) : Nat := (fs.map Field.name).idxOf (some name)

theorem place_cons (name : Text) (f : Field) (fs : List Field) :
    place name (f :: fs) = if f.name = some name then 0 else place name fs + 1 := by
  rw [place, List.map_cons, List.idxOf_cons, cond_eq_ite, place]
  simp only [beq_iff_eq]

theorem find?_eq (name : Text) (fs : List Field) : find? name fs = fs[place name fs]? := by
  induction fs with
  | nil => rfl
  | cons f fs ih =>
      rw [find?_cons, place_cons]
      split
      · rfl
      · rw [ih, List.getElem?_cons_succ]

/-- A value is added to the first field of its name. -/
theorem addTo_eq (name : Text) (v : Value) (fs : List Field) :
    addTo name v fs =
      (find? name fs).map fun f => (f.add v).map fun f' => fs.set (place name fs) f' := by
  induction fs with
  | nil => rfl
  | cons f fs ih =>
      rw [addTo, find?_cons, place_cons]
      split
      · rfl
      · rw [ih, Option.map_map]
        cases find? name fs with
        | none => rfl
        | some g => cases h : g.add v <;> simp [h, Except.map]

/-- The fields behind a value; what is refused changes nothing. -/
def withValue (name : Text) (v : Value) (fs : List Field) : List Field :=
  match addTo name v fs with
  | some (.ok fs) => fs
  | _             => fs

theorem withValue_cons (name : Text) (v : Value) (f : Field) (fs : List Field) :
    withValue name v (f :: fs) =
      if f.name = some name then f.afterEdit (.add v) :: fs else f :: withValue name v fs := by
  rw [withValue, addTo, withValue]
  by_cases named : f.name = some name
  · rw [if_pos named, if_pos named, Field.afterEdit, Field.edit]
    cases f.add v <;> rfl
  · rw [if_neg named, if_neg named]
    rcases addTo name v fs with _ | _ | _ <;> rfl

theorem find?_concat (name : Text) (fs : List Field) (f : Field) :
    find? name (fs ++ [f]) = (find? name fs).or (if f.name = some name then some f else none) := by
  rw [find?, find?, List.find?_append, List.find?_singleton]
  simp only [decide_eq_true_eq]

theorem find?_withValue (name n : Text) (v : Value) (fs : List Field) :
    find? name (withValue n v fs) =
      (find? name fs).map fun f => if n = name then f.afterEdit (.add v) else f := by
  induction fs with
  | nil => rfl
  | cons f fs ih =>
      rw [withValue_cons, find?_cons]
      by_cases first : f.name = some n
      · rw [if_pos first, find?_cons, Field.name_afterEdit_add, first]
        by_cases same : n = name <;> simp [same]
      · rw [if_neg first, find?_cons]
        by_cases named : f.name = some name
        · have other : n ≠ name := fun same => first (same ▸ named)
          simp [named, other]
        · rw [if_neg named, if_neg named, ih]

theorem map_name_withValue (name : Text) (v : Value) (fs : List Field) :
    (withValue name v fs).map Field.name = fs.map Field.name := by
  induction fs with
  | nil => rfl
  | cons f fs ih =>
      rw [withValue_cons]
      split
      · rw [List.map_cons, Field.name_afterEdit_add, List.map_cons]
      · rw [List.map_cons, ih, List.map_cons]

end Fields

/-! ### What is added -/

namespace Event

/-- What is added to an event: a field, a text as a field, or a value to the first field of a
name. -/
inductive Addition where
  | field (edits : List Edit)
  | text (name text : Text)
  | value (name : Text) (v : Value)
deriving Repr, DecidableEq

/-- The edits of a field that is added. -/
def Addition.edits? : Addition → Option (List Edit)
  | field edits => some edits
  | text name t => some [.name name, .addText t]
  | value _ _   => none

/-- A value that is added to the first field of a name. -/
def Addition.valueFor? (name : Text) : Addition → Option Edit
  | value n v => if n = name then some (.add v) else none
  | _         => none

/-- The values that are added to the first field of a name. -/
def valuesFor (name : Text) (as : List Addition) : List Edit :=
  as.filterMap (Addition.valueFor? name)

/-- The event behind an addition. -/
def perform (e : Event) : Addition → Event
  | .field edits    => e.addField (Field.empty.edited edits)
  | .text name text => e.addText name text
  | .value name v   => { e with fields := Fields.withValue name v e.fields }

/-- The event behind additions. -/
def run (e : Event) (as : List Addition) : Event := as.foldl perform e

/-- What is added to a field when it is there, with fields of these names in front. -/
def later (front : List (Option Text)) : Option Text → List Addition → List Edit
  | some n, as => if some n ∈ front then [] else valuesFor n as
  | none, _    => []

/-- All that is done to the fields that are added, behind fields of these names. -/
def histories (front : List (Option Text)) : List Addition → List (List Edit)
  | []      => []
  | a :: as =>
    match a.edits? with
    | some edits =>
      let name := (Edit.names edits).head?
      (edits ++ later front name as) :: histories (front ++ [name]) as
    | none       => histories front as

/-- Fields behind additions. -/
def settled (front : List (Option Text)) : List Field → List Addition → List Field
  | [], _       => []
  | f :: fs, as => f.edited (later front f.name as) :: settled (front ++ [f.name]) fs as

variable {front : List (Option Text)} {name n : Text} {v : Value} {e : Event} {a : Addition}
  {as : List Addition} {f : Field}

theorem later_nil (front : List (Option Text)) (name : Option Text) : later front name [] = [] := by
  cases name with
  | none => rfl
  | some n => exact ite_self _

theorem settled_nil (front : List (Option Text)) (fs : List Field) : settled front fs [] = fs := by
  induction fs generalizing front with
  | nil => rfl
  | cons f fs ih => rw [settled, later_nil, ih]; rfl

theorem settled_concat (front : List (Option Text)) (fs : List Field) (f : Field)
    (as : List Addition) :
    settled front (fs ++ [f]) as =
      settled front fs as ++ [f.edited (later (front ++ fs.map Field.name) f.name as)] := by
  induction fs generalizing front with
  | nil => simp [settled]
  | cons g fs ih => simp [settled, ih]

/-- An addition that is no value for a field does not matter to it. -/
theorem later_cons {name : Option Text} (h : ∀ n ∈ name, some n ∉ front → a.valueFor? n = none) :
    later front name (a :: as) = later front name as := by
  cases name with
  | none => rfl
  | some n =>
      rw [later, later]
      split
      · rfl
      · next first => rw [valuesFor, List.filterMap_cons_none (h n rfl first), valuesFor]

theorem settled_cons (fs : List Field) (h : ∀ n, some n ∉ front → a.valueFor? n = none) :
    settled front fs (a :: as) = settled front fs as := by
  induction fs generalizing front with
  | nil => rfl
  | cons f fs ih =>
      have behind : ∀ n, some n ∉ front ++ [f.name] → a.valueFor? n = none :=
        fun n hn => h n fun hm => hn (List.mem_append_left _ hm)
      rw [settled, settled, later_cons fun n _ => h n, ih behind]

/-- A value goes to the field that it is for. -/
theorem settled_withValue (hn : some n ∉ front) (fs : List Field) :
    settled front (Fields.withValue n v fs) as = settled front fs (.value n v :: as) := by
  induction fs generalizing front with
  | nil => rfl
  | cons f fs ih =>
      rw [Fields.withValue_cons, settled]
      by_cases first : f.name = some n
      · have taken :
            later front (some n) (.value n v :: as) = .add v :: later front (some n) as := by
          simp [later, hn, valuesFor, Addition.valueFor?]
        -- The fields behind have one of the name in front of them.
        have others : settled (front ++ [f.name]) fs (.value n v :: as) =
            settled (front ++ [f.name]) fs as := by
          refine settled_cons fs fun m hm => if_neg fun same => hm ?_
          simp [first, same]
        rw [if_pos first, settled, Field.name_afterEdit_add, others, first, taken]
        rfl
      · have untaken : later front f.name (.value n v :: as) = later front f.name as :=
          later_cons fun m hm _ => if_neg fun same : n = m => first (same ▸ hm)
        have behind : some n ∉ front ++ [f.name] := by
          simp [hn, Ne.symm first]
        rw [if_neg first, settled, untaken, ih behind]

/-! ### Runs -/

/-- What is added is a field, as its edits have made it, or a value. -/
theorem Addition.field_or_value (a : Addition) :
    (∃ edits, a.edits? = some edits ∧
      (∀ e : Event, e.perform a = e.addField (Field.empty.edited edits)) ∧
      ∀ name, a.valueFor? name = none) ∨
    ∃ n v, a = .value n v := by
  cases a with
  | field edits => exact .inl ⟨edits, rfl, fun _ => rfl, fun _ => rfl⟩
  | text name t => exact .inl ⟨_, rfl, fun _ => rfl, fun _ => rfl⟩
  | value n v => exact .inr ⟨n, v, rfl⟩

theorem name_edited (edits : List Edit) :
    (Field.empty.edited edits).name = (Edit.names edits).head? := by
  rw [Field.edited_empty]

/-- **The fields behind additions** are those there were and those that were added, each with what
was done to it. -/
theorem fields_run (e : Event) (as : List Addition) :
    (e.run as).fields =
      settled [] e.fields as ++
        (histories (e.fields.map Field.name) as).map Field.empty.edited := by
  induction as generalizing e with
  | nil => simp [run, settled_nil, histories]
  | cons a as ih =>
      have first : e.run (a :: as) = (e.perform a).run as := rfl
      -- A field that is added is one of those there were for what is added later.
      rw [first, ih, histories]
      obtain ⟨edits, own, added, other⟩ | ⟨n, v, rfl⟩ := a.field_or_value
      · rw [own, added, addField, settled_concat, List.map_append, name_edited,
          settled_cons _ fun n _ => other n]
        simp [Field.edited_append, name_edited]
      · rw [perform, Fields.map_name_withValue, settled_withValue List.not_mem_nil]
        rfl

/-- The name of a field that is added. -/
def Addition.name? (a : Addition) : Option (Option Text) :=
  a.edits?.map fun edits => (Edit.names edits).head?

/-- Fields keep their places. -/
theorem map_name_run (e : Event) (as : List Addition) :
    (e.run as).fields.map Field.name = e.fields.map Field.name ++ as.filterMap Addition.name? := by
  induction as generalizing e with
  | nil => simp [run]
  | cons a as ih =>
      have first : e.run (a :: as) = (e.perform a).run as := rfl
      rw [first, ih]
      obtain ⟨edits, own, added, -⟩ | ⟨n, v, rfl⟩ := a.field_or_value
      · simp [added, addField, name_edited, Addition.name?, own]
      · rw [perform, Fields.map_name_withValue]
        rfl

theorem field?_perform (found : e.field? name = some f) (a : Addition) :
    (e.perform a).field? name = some (f.edited (a.valueFor? name).toList) := by
  rw [field?] at found
  obtain ⟨edits, -, added, other⟩ | ⟨n, v, rfl⟩ := a.field_or_value
  · rw [added, other, addField, field?, Fields.find?_concat, found]
    rfl
  · rw [perform, field?, Fields.find?_withValue, found, Option.map_some, Addition.valueFor?]
    split <;> rfl

/-- **The field that is found** under a name stays the one that is found, and nothing but a value
for it changes it. -/
theorem field?_run (found : e.field? name = some f) (as : List Addition) :
    (e.run as).field? name = some (f.edited (valuesFor name as)) := by
  induction as generalizing e f with
  | nil => exact found
  | cons a as ih =>
      have split : valuesFor name (a :: as) = (a.valueFor? name).toList ++ valuesFor name as := by
        rw [valuesFor, List.filterMap_cons]
        cases a.valueFor? name <;> rfl
      rw [split, Field.edited_append]
      exact ih (field?_perform found a)

/-- **Fields that are added** to an event without any.  Each is what was done to it, and is known by
that (`Field.Slots.IsBuilt`); under a name the first one is found, and stays the one that is found;
and a value that is refused changes nothing. -/
theorem fields_of_run (as : List Addition) :
    let e := empty.run as
    e.fields = (histories [] as).map Field.empty.edited ∧
      (∀ edits, Field.Slots.IsBuilt edits (Field.Slots.empty.edited edits)
        (Field.empty.edited edits)) ∧
      (∀ name, e.field? name =
        e.fields[(as.filterMap Addition.name?).idxOf (some name)]?) ∧
      (∀ name f further, e.field? name = some f →
        (e.run further).field? name = some (f.edited (valuesFor name further))) ∧
      ∀ name v, Fields.addTo name v e.fields =
        (e.field? name).map fun f =>
          (f.add v).map fun f' => e.fields.set (Fields.place name e.fields) f' := by
  intro e
  refine ⟨fields_run empty as, Field.Slots.isBuilt_edited, fun name => ?_,
    fun name f further found => field?_run found further,
    fun name v => Fields.addTo_eq name v e.fields⟩
  have names : e.fields.map Field.name = as.filterMap Addition.name? := map_name_run empty as
  rw [field?, Fields.find?_eq, Fields.place, names]

/-- A value goes to the first of two fields of a name. -/
example :
    (empty.run [.text "a" "1", .text "a" "2", .value "a" (.number 3)]).fields.map Field.texts =
      [["1".toList, "3".toList], ["2".toList]] := by
  decide

end Event

end EventLog
