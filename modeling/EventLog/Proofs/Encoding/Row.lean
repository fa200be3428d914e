import EventLog.Encoder
import EventLog.Proofs.Json.Encoding

/-!
# Reading rows

A reader of rows takes cells between double quotes with single commas between them.  Inside a cell a
backslash takes the character behind it with it, and so only a double quote without one ends the
cell.  What a cell means is told by the escapes of JSON (`resolve?`).

* `cell_eq`: a cell is written as a string of JSON, and this string is what the cell shows.
* `encode_csv_cells`: a row is read as one cell for each column.  The cell shows the first field of
  its name, and the row has nothing of any other field.
-/

namespace EventLog.Row

/-! ### Cells -/

/-- Where a reader stands in a row. -/
inductive Place where
  /-- In front of a cell. -/
  | opening
  /-- Inside a cell, behind characters of it, which stand in reverse. -/
  | inside (gathered : Text)
  /-- Behind a cell. -/
  | closed

/-- The cells that are read from a place on. -/
def cellsFrom : Place → Text → Option (List Text)
  | .opening, '"' :: t        => cellsFrom (.inside []) t
  | .inside g, '"' :: t       => (cellsFrom .closed t).map (g.reverse :: ·)
  | .inside g, '\\' :: c :: t => cellsFrom (.inside (c :: '\\' :: g)) t
  | .inside g, c :: t         => cellsFrom (.inside (c :: g)) t
  | .closed, ',' :: t         => cellsFrom .opening t
  | .closed, []               => some []
  | _, _                      => none

/-- The cells of a row, as they are written.  An empty row has none. -/
def cells (t : Text) : Option (List Text) := if t = [] then some [] else cellsFrom .opening t

/-- What a cell means. -/
def resolve? (cell : Text) : Option Text :=
  match JsonToken.read (['"'] ++ cell ++ ['"']) with
  | some [.text t] => some t
  | _              => none

/-- A text that does not end the cell it stands in. -/
def Keeps (t : Text) : Prop :=
  ∀ g rest, cellsFrom (.inside g) (t ++ rest) = cellsFrom (.inside (t.reverse ++ g)) rest

namespace Keeps

theorem nil : Keeps [] := fun _ _ => rfl

theorem append {t u : Text} (ht : Keeps t) (hu : Keeps u) : Keeps (t ++ u) := by
  intro g rest
  rw [List.append_assoc, ht, hu, List.reverse_append, List.append_assoc]

end Keeps

theorem keeps_char {c : Char} (hq : c ≠ '"') (hb : c ≠ '\\') : Keeps [c] := by
  intro g rest
  rw [List.singleton_append, cellsFrom]
  · rfl
  · exact hq
  · rintro _ _ rfl
    exact absurd rfl hb

theorem keeps_escape (c : Char) : Keeps ['\\', c] := fun _ _ => rfl

theorem keeps_quoted (t : Text) : Keeps (Escape.quoted t) := by
  refine (Layout.content_quoted t).made (fun c u quote backslash ih => ?_) (fun c u ih => ?_) .nil
  · exact (keeps_char quote backslash).append ih
  · exact (keeps_escape c).append ih

/-- A string is one cell. -/
theorem cellsFrom_jsonString (t rest : Text) :
    cellsFrom .opening (Layout.jsonString t ++ rest) =
      (cellsFrom .closed rest).map (Escape.quoted t :: ·) := by
  rw [Layout.jsonString, List.append_assoc, List.append_assoc, List.singleton_append, cellsFrom,
    keeps_quoted, List.singleton_append, cellsFrom, List.append_nil, List.reverse_reverse]

/-- Strings with commas between them are a cell each. -/
theorem cellsFrom_commaList (t : Text) (ts : List Text) :
    cellsFrom .opening (Text.commaList ((t :: ts).map Layout.jsonString)) =
      some ((t :: ts).map Escape.quoted) := by
  induction ts generalizing t with
  | nil =>
      have last := cellsFrom_jsonString t []
      rw [List.append_nil] at last
      simpa [Text.commaList, cellsFrom] using last
  | cons u ts ih =>
      have comma (rest : Text) : cellsFrom .closed (',' :: rest) = cellsFrom .opening rest := rfl
      have further := ih u
      simp only [Text.commaList, List.map_cons, List.intercalate_cons_cons, List.append_assoc,
        List.singleton_append] at further ⊢
      rw [cellsFrom_jsonString, comma, further, Option.map_some]

theorem cells_commaList (ts : List Text) :
    cells (Text.commaList (ts.map Layout.jsonString)) = some (ts.map Escape.quoted) := by
  cases ts with
  | nil => rfl
  | cons t ts =>
      have written : Text.commaList ((t :: ts).map Layout.jsonString) ≠ [] := by
        intro none
        have read := cellsFrom_commaList t ts
        rw [none] at read
        cases read
      rw [cells, if_neg written, cellsFrom_commaList]

theorem resolve?_quoted (t : Text) : resolve? (Escape.quoted t) = some t := by
  have read := (JsonToken.lexes_quoted (Layout.quoted_jsonString t)).read
  rw [Layout.jsonString] at read
  rw [resolve?, read]

/-! ### What a cell shows -/

/-- Nothing for no text, a text by itself, and several in brackets with commas between them. -/
def joined : List Text → Text
  | []  => []
  | [t] => t
  | ts  => ['['] ++ Text.commaList ts ++ [']']

/-- What the cell of a column shows: the first field of its name, if there is one. -/
def shown (e : Event) (column : Text) : Text :=
  match e.fields.find? fun f => f.name = some column with
  | none   => []
  | some f => joined f.texts

theorem quoted_append (t u : Text) :
    Escape.quoted (t ++ u) = Escape.quoted t ++ Escape.quoted u :=
  List.flatMap_append

/-- Commas are not escaped. -/
theorem quoted_commaList :
    ∀ ts : List Text, Escape.quoted (Text.commaList ts) = Text.commaList (ts.map Escape.quoted)
  | []           => rfl
  | [t]          => by simp [Text.commaList]
  | t :: u :: ts => by
      have comma : Escape.quoted [','] = [','] := rfl
      have further := quoted_commaList (u :: ts)
      simp only [Text.commaList, List.map_cons, List.intercalate_cons_cons] at further ⊢
      rw [quoted_append, quoted_append, comma, further]

/-- Neither are brackets. -/
theorem cellTexts_eq (ts : List Text) : Encoder.cellTexts ts = Escape.quoted (joined ts) := by
  have opening : Escape.quoted ['['] = ['['] := rfl
  have closing : Escape.quoted [']'] = [']'] := rfl
  match ts with
  | []           => rfl
  | [t]          => rfl
  | t :: u :: ts =>
      rw [Encoder.cellTexts, joined, quoted_append, quoted_append, opening, closing,
        quoted_commaList] <;> simp

/-- A cell is the string that it shows. -/
theorem cell_eq (e : Event) (column : Text) :
    Encoder.cell e column = Layout.jsonString (shown e column) := by
  rw [Encoder.cell, cellTexts_eq, Event.field?, Fields.find?, shown]
  cases e.fields.find? fun f => f.name = some column <;> rfl

/-- A row is read as what its cells show. -/
theorem cells_row (columns : NameList) (e : Event) :
    cells (Encoder.row columns e) =
      some (columns.names.map fun column => Escape.quoted (shown e column)) := by
  have strings : columns.names.map (Encoder.cell e) =
      (columns.names.map (shown e)).map Layout.jsonString := by
    rw [List.map_map]
    exact List.map_congr_left fun column _ => cell_eq e column
  rw [Encoder.row, strings, cells_commaList, List.map_map]
  rfl

/-- A cell shows no field but those of the name of its column. -/
theorem shown_filter (tags : Option (List Text)) (e : Event) {columns : List Text} {column : Text}
    (h : column ∈ columns) :
    shown ⟨tags, e.fields.filter fun f => f.name ∈ columns.map some⟩ column = shown e column := by
  have found : (e.fields.filter fun f => f.name ∈ columns.map some).find?
      (fun f => f.name = some column) = e.fields.find? fun f => f.name = some column := by
    rw [List.find?_filter]
    congr 1
    funext f
    by_cases hf : f.name = some column <;> simp [hf, h]
  rw [shown, shown, found]

/-! ### Main statement -/

/-- **A row is read as its columns.**  There is one cell for each of them, and none in an empty row;
each means what the first field of the name of its column shows.  What is written does not change
if the tags and all fields without a column are left out, whatever the flags. -/
theorem encode_csv_cells (columns : NameList) (flags : Flags) (e : Event) :
    let written := (Encoder.csv columns).encode flags e
    (∃ raw, cells written = some raw ∧
      raw.map resolve? = columns.names.map fun column => some (shown e column)) ∧
    (written = [] ↔ columns.names = []) ∧
    ∀ flags', written = (Encoder.csv columns).encode flags'
      ⟨none, e.fields.filter fun f => f.name ∈ columns.names.map some⟩ := by
  intro written
  have read : cells written = _ := cells_row columns e
  refine ⟨⟨_, read, ?_⟩, ⟨fun empty => ?_, fun none => ?_⟩, fun flags' => ?_⟩
  · rw [List.map_map]
    exact List.map_congr_left fun column _ => resolve?_quoted _
  · rw [empty] at read
    simpa [cells] using read
  · simp [written, Encoder.encode, Encoder.row, none, Text.commaList]
  · refine congrArg Text.commaList (List.map_congr_left fun column hcolumn => ?_)
    rw [cell_eq, cell_eq, shown_filter none e hcolumn]

end EventLog.Row
