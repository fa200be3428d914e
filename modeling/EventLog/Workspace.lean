import EventLog.EventPool

/-!
# Workspaces

A workspace is a pool of events together with single values, fields, lists of fields and cursors
that are not part of any event, each kind with names of its own.
-/

namespace EventLog

/-- A pool of events, and things under names beside it. -/
structure Workspace where
  pool : EventPool
  values : Table Value
  fields : Table Field
  fieldLists : Table (List Field)
  cursors : Table Nat

namespace Workspace

/-- Nothing has been made. -/
def empty : Workspace := ⟨.empty, [], [], [], []⟩

/-- Changes a value; what is refused changes nothing. -/
def changeValue (w : Workspace) (name : Text) (f : Value → Except EventError Value) :
    Option (Except EventError Unit × Workspace) :=
  (w.values.get? name).map fun v =>
    match f v with
    | .ok v    => (.ok (), { w with values := w.values.put name v })
    | .error e => (.error e, w)

/-- Changes a field; what is refused changes nothing. -/
def changeField (w : Workspace) (name : Text) (f : Field → Except EventError Field) :
    Option (Except EventError Unit × Workspace) :=
  (w.fields.get? name).map fun v =>
    match f v with
    | .ok v    => (.ok (), { w with fields := w.fields.put name v })
    | .error e => (.error e, w)

/-- Adds texts to a field until one is refused; tells how many were added. -/
def fillField (f : Field) (added : Nat) : List Text → Except EventError Unit × Nat × Field
  | []      => (.ok (), added, f)
  | t :: ts =>
    match f.add (.string t) with
    | .ok f    => fillField f (added + 1) ts
    | .error e => (.error e, added, f)

/-- Moves a field to the end of a list of fields. -/
def moveToList (w : Workspace) (list field : Text) : Option Workspace := do
  let fs ← w.fieldLists.get? list
  let f ← w.fields.get? field
  return { w with
    fieldLists := w.fieldLists.put list (fs ++ [f])
    fields := w.fields.remove field }

/-- Adds a value to the first field of a name in a list of fields; gives nothing for the result if
there is none. -/
def addToList (w : Workspace) (list name : Text) (v : Value) :
    Option (Option (Except EventError Unit) × Workspace) :=
  (w.fieldLists.get? list).map fun fs =>
    match Fields.addTo name v fs with
    | none             => (none, w)
    | some (.ok fs)    => (some (.ok ()), { w with fieldLists := w.fieldLists.put list fs })
    | some (.error e)  => (some (.error e), w)

/-- Moves a field to an event. -/
def moveToEvent (w : Workspace) (event field : Text) : Option Workspace := do
  let _ ← w.pool.events.get? event
  let f ← w.fields.get? field
  let pool ← w.pool.addField event f
  return { w with pool := pool, fields := w.fields.remove field }

/-- Moves a cursor on to the next tag of a handle's bucket; gives the tag. -/
def nextTag (w : Workspace) (handle cursor : Text) : Option (Option Text × Workspace) :=
  (w.pool.bucket? handle).map fun b =>
    match Cursor.next (w.cursors.get? cursor) b.tags with
    | (tag, some place) => (tag, { w with cursors := w.cursors.put cursor place })
    | (tag, none)       => (tag, { w with cursors := w.cursors.remove cursor })

end Workspace

end EventLog
