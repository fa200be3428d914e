import EventLog.Encoder.Layout

/-!
# What is shown of an event

In ultra-compact mode a format shows the fields of an event that have values, and otherwise all of
them (`Event.shownFields`).  What is said of an encoding is said of these.

* `keptFields_eq_shownFields`: they are the fields that have an entry in the framed formats.
-/

namespace EventLog

namespace Event

/-- An event without the fields that have no values. -/
def withValues (e : Event) : Event := { e with fields := e.fields.filter (·.values ≠ []) }

/-- The fields that are shown. -/
def shownFields (flags : Flags) (e : Event) : List Field :=
  if flags.ultraCompact then e.withValues.fields else e.fields

theorem shownFields_sublist (flags : Flags) (e : Event) :
    (e.shownFields flags).Sublist e.fields := by
  rw [shownFields]
  split
  · exact List.filter_sublist
  · exact List.Sublist.refl e.fields

end Event

/-- A field has an entry if and only if it is shown. -/
theorem Layout.keptFields_eq_shownFields (flags : Flags) (e : Event) :
    keptFields flags.ultraCompact e.fields = e.shownFields flags := rfl

end EventLog
