/-!
# Cutting a list at separators

`pieces p xs` is what lies between the elements of `xs` that `p` marks as separators: one piece
more than there are separators, some of them perhaps empty.
-/

namespace EventLog

/-- The pieces of a list between its separators. -/
def pieces {α : Type u} (separates : α → Bool) : List α → List (List α)
  | []      => [[]]
  | x :: xs =>
    if separates x then [] :: pieces separates xs
    else match pieces separates xs with
      | []            => [[x]]
      | piece :: rest => (x :: piece) :: rest

variable {α : Type u} (separates : α → Bool)

theorem pieces_ne_nil (xs : List α) : pieces separates xs ≠ [] := by
  cases xs with
  | nil => simp [pieces]
  | cons x xs =>
    rw [pieces]
    split
    · simp
    · split <;> simp

/-- A separator between two lists ends the last piece of the first one. -/
theorem pieces_append_cons (xs ys : List α) {s : α} (h : separates s = true) :
    pieces separates (xs ++ s :: ys) = pieces separates xs ++ pieces separates ys := by
  induction xs with
  | nil => simp [pieces, h]
  | cons x xs ih =>
    simp only [List.cons_append, pieces, ih]
    split
    · rfl
    · match hp : pieces separates xs with
      | [] => exact absurd hp (pieces_ne_nil separates xs)
      | piece :: rest => rfl

/-- If only one thing separates, a list without it has no separators. -/
theorem separates_eq_false_of_notMem {s : α} (only : ∀ x, separates x = true → x = s)
    {l : List α} (hl : s ∉ l) : ∀ x ∈ l, separates x = false := fun x hx =>
  Bool.eq_false_iff.mpr fun h => hl (only x h ▸ hx)

/-- A list without separators is one piece. -/
theorem pieces_eq_singleton {xs : List α} (h : ∀ x ∈ xs, separates x = false) :
    pieces separates xs = [xs] := by
  induction xs with
  | nil => rfl
  | cons x xs ih =>
    rw [pieces, if_neg (by simp [h x]), ih fun y hy => h y (List.mem_cons_of_mem _ hy)]

/-- Lists without separators are the pieces of a first one and of the others with a separator before
each. -/
theorem pieces_append_flatMap_cons {s : α} (h : separates s = true) {l : List α}
    {ls : List (List α)} (hls : ∀ l' ∈ l :: ls, ∀ x ∈ l', separates x = false) :
    pieces separates (l ++ ls.flatMap fun l' => s :: l') = l :: ls := by
  rw [List.forall_mem_cons] at hls
  induction ls generalizing l with
  | nil => rw [List.flatMap_nil, List.append_nil, pieces_eq_singleton separates hls.1]
  | cons l' ls ih =>
    rw [List.forall_mem_cons] at hls
    rw [List.flatMap_cons, List.cons_append, pieces_append_cons separates _ _ h,
      pieces_eq_singleton separates hls.1, ih hls.2, List.singleton_append]

/-- Lists without separators, at least one, are the pieces of all of them with a separator between
them. -/
theorem pieces_intercalate {s : α} (h : separates s = true) {ls : List (List α)} (hne : ls ≠ [])
    (hls : ∀ l ∈ ls, ∀ x ∈ l, separates x = false) :
    pieces separates ([s].intercalate ls) = ls := by
  match ls with
  | [l] =>
    rw [List.intercalate_singleton]
    exact pieces_eq_singleton separates (hls l (List.mem_singleton_self l))
  | l :: l' :: ls =>
    rw [List.forall_mem_cons] at hls
    rw [List.intercalate_cons_cons, List.append_assoc, List.singleton_append,
      pieces_append_cons separates _ _ h, pieces_eq_singleton separates hls.1,
      pieces_intercalate h (List.cons_ne_nil l' ls) hls.2, List.singleton_append]

/-- There is one piece more than there are separators. -/
theorem length_pieces (xs : List α) :
    (pieces separates xs).length = xs.countP separates + 1 := by
  induction xs with
  | nil => rfl
  | cons x xs ih =>
    rw [pieces, List.countP_cons]
    split
    · simp [ih]
    · match hp : pieces separates xs with
      | [] => exact absurd hp (pieces_ne_nil separates xs)
      | piece :: rest => simpa [hp] using ih

/-- Lists without separators are the pieces of all of them with a separator behind each. -/
theorem pieces_flatMap_concat {s : α} (h : separates s = true) {ls : List (List α)}
    (hls : ∀ l ∈ ls, ∀ x ∈ l, separates x = false) :
    pieces separates (ls.flatMap fun l => l ++ [s]) = ls ++ [[]] := by
  induction ls with
  | nil => rfl
  | cons l ls ih =>
    rw [List.forall_mem_cons] at hls
    rw [List.flatMap_cons, List.append_assoc, List.singleton_append,
      pieces_append_cons separates _ _ h, pieces_eq_singleton separates hls.1, ih hls.2]
    rfl

end EventLog
