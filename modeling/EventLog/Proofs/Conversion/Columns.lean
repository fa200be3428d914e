import EventLog.Proofs.Decoding.Tokens
import EventLog.Proofs.Encoding.Row
import Mathlib.Data.List.Nodup

/-!
# Columns of a line

An access log line is decoded by the places of its tokens: each token is given the name that stands
at its place in the list.  A row finds the fields of an event by name.  With one list for both, the
cell of a column shows the token at the first place of the column's name, and so every line keeps
its columns exactly if no name stands in the list twice (`read?_row_event`).
-/

namespace EventLog

namespace Row

/-! ### Rows as texts -/

/-- What the cells of a row mean. -/
def read? (row : Text) : Option (List Text) := do (← cells row).mapM resolve?

theorem mapM_resolve?_quoted (ts : List Text) :
    (ts.map Escape.quoted).mapM resolve? = some ts := by
  induction ts with
  | nil => rfl
  | cons t ts ih => simp [resolve?_quoted, ih]

theorem read?_row (columns : NameList) (e : Event) :
    read? (Encoder.row columns e) = some (columns.names.map (shown e)) := by
  have written : (columns.names.map fun column => Escape.quoted (shown e column)) =
      (columns.names.map (shown e)).map Escape.quoted := by
    rw [List.map_map]
    rfl
  rw [read?, cells_row, written]
  exact mapM_resolve?_quoted _

end Row

namespace Apache

/-! ### Fields of tokens -/

/-- The text that a row of tokens has at a place: nothing for a dash, or if it is shorter. -/
def textAt (ts : List Text) (i : Nat) : Text := blankDash (ts.getD i [])

theorem column_shown (name token : Text) : Row.joined (column name token).texts = blankDash token :=
  congrArg Row.joined (Field.texts_map_string (some name) [blankDash token])

/-- A name shows the token at its first place in the list. -/
theorem shown_columns : ∀ {names : List Text} (ts : List Text) {name : Text}, name ∈ names →
    Row.shown ⟨none, List.zipWith column names ts⟩ name = textAt ts (names.idxOf name)
  | names, [], name, _ => by simp [Row.shown, textAt, blankDash]
  | first :: names, t :: ts, name, h => by
      have named : (column first t).name = some first := rfl
      by_cases hname : first = name
      · subst hname
        simp [Row.shown, named, column_shown, textAt]
      · have further := shown_columns ts ((List.mem_cons.mp h).resolve_left (Ne.symm hname))
        simpa [Row.shown, named, hname, textAt, List.idxOf_cons_ne] using further

/-- A row of the event of a line is read as the tokens at the first places of the names. -/
theorem read?_row_event (columns : NameList) {line : Text} {ts : List Text} (h : Spells line ts) :
    Row.read? (Encoder.row columns (event columns line)) =
      some (columns.names.map fun name => textAt ts (columns.names.idxOf name)) := by
  rw [Row.read?_row, event, fields_of_spells h]
  exact congrArg some (List.map_congr_left fun name hname => shown_columns ts hname)

/-! ### Names that stand twice -/

/-- Tokens of different lengths, and so all different. -/
def rulers (n : Nat) : List Text := (List.range n).map fun i => List.replicate i 'x'

theorem length_textAt_rulers {n i : Nat} (h : i < n) : (textAt (rulers n) i).length = i := by
  have ruler : (rulers n).getD i [] = List.replicate i 'x' := by simp [rulers, h]
  have kept : List.replicate i 'x' ≠ "-".toList := by
    intro dash
    have last : '-' ∈ List.replicate i 'x' := dash ▸ List.mem_singleton_self '-'
    exact absurd (List.eq_of_mem_replicate last) (by decide)
  rw [textAt, ruler, blankDash, if_neg kept, List.length_replicate]

theorem spells_rulers (n : Nat) : Spells (quotedRow (rulers n)) (rulers n) := by
  refine spells_quotedRow fun t ht quote => ?_
  obtain ⟨i, -, rfl⟩ := List.mem_map.mp ht
  exact absurd (List.eq_of_mem_replicate quote) (by decide)

theorem map_textAt_idxOf {names : List Text} (h : names.Nodup) (ts : List Text) :
    (names.map fun name => textAt ts (names.idxOf name)) =
      (List.range names.length).map (textAt ts) := by
  refine List.ext_getElem (by simp) fun i hi _ => ?_
  rw [List.length_map] at hi
  simp [h.idxOf_getElem i hi]

theorem nodup_of_rulers {names : List Text}
    (h : (names.map fun name => textAt (rulers names.length) (names.idxOf name)) =
      (List.range names.length).map (textAt (rulers names.length))) : names.Nodup := by
  have places : names.map names.idxOf = List.range names.length := by
    have lengths := congrArg (List.map List.length) h
    rw [List.map_map, List.map_map] at lengths
    calc names.map names.idxOf
      _ = names.map (List.length ∘ fun name =>
            textAt (rulers names.length) (names.idxOf name)) :=
          List.map_congr_left fun name hname =>
            (length_textAt_rulers (List.idxOf_lt_length_of_mem hname)).symm
      _ = (List.range names.length).map (List.length ∘ textAt (rulers names.length)) := lengths
      _ = (List.range names.length).map id :=
          List.map_congr_left fun i hi => length_textAt_rulers (List.mem_range.mp hi)
      _ = List.range names.length := List.map_id _
  exact List.Nodup.of_map names.idxOf (places ▸ List.nodup_range)

/-! ### Main statement -/

/-- **Columns of a line.**  Every line is a row of tokens.  Decoded and written with one list of
names, it has a cell for each name, with the token at the first place of the name; and the cells of
all lines have the tokens at their own places exactly if no name stands in the list twice. -/
theorem encode_csv_event (columns : NameList) (flags : Flags) :
    let written (line : Text) := (Encoder.csv columns).encode flags (event columns line)
    (∀ line, ∃ ts, Spells line ts) ∧
    (∀ line ts, Spells line ts → Row.read? (written line) =
      some (columns.names.map fun name => textAt ts (columns.names.idxOf name))) ∧
    ((∀ line ts, Spells line ts → Row.read? (written line) =
      some ((List.range columns.names.length).map (textAt ts))) ↔ columns.names.Nodup) := by
  intro written
  have read {line : Text} {ts : List Text} (h : Spells line ts) :
      Row.read? (written line) = _ := read?_row_event columns h
  refine ⟨exists_spells, fun _ _ => read, fun kept => ?_, fun nodup line ts h => ?_⟩
  · have places := kept _ _ (spells_rulers columns.names.length)
    rw [read (spells_rulers _)] at places
    exact nodup_of_rulers (Option.some.inj places)
  · rw [read h, map_textAt_idxOf nodup]

/-- A dash and a missing token leave their cells empty. -/
theorem encode_csv_event_missing :
    let columns : NameList := ⟨["a", "b", "c"]⟩
    let line : Text := "x \"-\""
    let ts : List Text := ["x", "-"]
    NameList.parse "a,b c" = .ok columns ∧ columns.names.Nodup ∧ Spells line ts ∧
      Row.read? ((Encoder.csv columns).encode .none (event columns line)) =
        some ["x".toList, [], []] := by
  intro columns line ts
  have nodup : columns.names.Nodup := by decide
  have dash : Spells " \"-\"".toList ["-"] :=
    .enclosed 1 .quotes (t := ['-']) (by decide) (.blank 0)
  have row : Spells line ts := .bare 0 (t := ['x']) (by decide) rfl dash
  exact ⟨rfl, nodup, row, (encode_csv_event columns .none).2.2.mpr nodup line ts row⟩

/-- A name that stands twice shows its first token twice. -/
theorem encode_csv_event_twice :
    let columns : NameList := ⟨["a", "a"]⟩
    let line : Text := "x y"
    let ts : List Text := ["x", "y"]
    let written := (Encoder.csv columns).encode .none (event columns line)
    NameList.parse "a,a" = .ok columns ∧ Spells line ts ∧ written = "\"x\",\"x\"" ∧
      Row.read? written = some ["x".toList, "x".toList] ∧
      Row.read? written ≠ some ((List.range columns.names.length).map (textAt ts)) := by
  intro columns line ts written
  have last : Spells " y".toList ["y"] := .bare 1 (t := ['y']) (by decide) rfl (.blank 0)
  have row : Spells line ts := .bare 0 (t := ['x']) (by decide) rfl last
  have read : Row.read? written = some ["x".toList, "x".toList] := read?_row_event columns row
  refine ⟨rfl, row, by decide, read, ?_⟩
  rw [read]
  decide

end Apache

end EventLog
