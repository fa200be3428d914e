import EventLog.Text

/-!
# Named tables

A table gives some names a value each, in the order the names were first put in.  Putting a name in
or taking it out changes what is found under that name and under no other.
-/

namespace EventLog

/-- Values by name. -/
abbrev Table (α : Type) := List (Text × α)

namespace Table

variable {α : Type}

/-- The value of a name. -/
def get? (name : Text) (t : Table α) : Option α := (t.find? fun e => e.1 = name).map Prod.snd

/-- Gives a name a value, in place of the one it had. -/
def put (name : Text) (a : α) : Table α → Table α
  | []          => [(name, a)]
  | (k, b) :: t => if k = name then (k, a) :: t else (k, b) :: put name a t

/-- Takes a name and its value out. -/
def remove (name : Text) (t : Table α) : Table α := t.filter fun e => e.1 ≠ name

@[simp] theorem get?_nil (name : Text) : get? name ([] : Table α) = none := rfl

/-- Only the first entry of a name counts. -/
theorem get?_cons (name k : Text) (a : α) (t : Table α) :
    get? name ((k, a) :: t) = if k = name then some a else get? name t := by
  by_cases h : k = name <;> simp [get?, h]

theorem get?_put_self (name : Text) (a : α) (t : Table α) : get? name (put name a t) = some a := by
  induction t with
  | nil => simp [put, get?_cons]
  | cons e t ih =>
    obtain ⟨k, b⟩ := e
    by_cases h : k = name
    · simp [put, h, get?_cons]
    · simp [put, h, get?_cons, ih]

theorem get?_put_of_ne {name other : Text} (h : other ≠ name) (a : α) (t : Table α) :
    get? other (put name a t) = get? other t := by
  induction t with
  | nil => simp [put, get?_cons, h.symm]
  | cons e t ih =>
    obtain ⟨k, b⟩ := e
    by_cases hk : k = name
    · subst hk
      simp [put, get?_cons, h.symm]
    · simp [put, hk, get?_cons, ih]

theorem get?_remove_self (name : Text) (t : Table α) : get? name (remove name t) = none := by
  simp [get?, remove, List.find?_eq_none]

theorem get?_remove_of_ne {name other : Text} (h : other ≠ name) (t : Table α) :
    get? other (remove name t) = get? other t := by
  induction t with
  | nil => rfl
  | cons e t ih =>
    obtain ⟨k, b⟩ := e
    unfold remove at ih ⊢
    by_cases hk : k = name
    · subst hk
      rw [List.filter_cons_of_neg (by simp), ih, get?_cons, if_neg h.symm]
    · rw [List.filter_cons_of_pos (by simpa using hk), get?_cons, get?_cons, ih]

end Table

end EventLog
