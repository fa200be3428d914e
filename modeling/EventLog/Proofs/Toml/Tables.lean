import EventLog.Proofs.Toml.Values

/-!
# TOML documents of plain tables

A document of the plainest kind names tables by headers and gives each of them members, a line for
each.  Such a text is read as its statements (`Reads`), line by line, and these make the tables with
their members in order, if no name comes twice (`ofStatements?_tables`).
-/

namespace EventLog.Toml

/-! ### Lines as statements -/

/-- A name that needs no quotes. -/
structure Bare (k : Text) : Prop where
  nonempty : k ≠ []
  chars : ∀ c ∈ k, isNameChar c

theorem bare_iff {k : Text} : Bare k ↔ k ≠ [] ∧ k.all isNameChar :=
  ⟨fun h => ⟨h.nonempty, List.all_eq_true.mpr h.chars⟩,
    fun h => ⟨h.1, List.all_eq_true.mp h.2⟩⟩

instance (k : Text) : Decidable (Bare k) := decidable_of_iff _ bare_iff.symm

section

variable {k : Text} (hk : Bare k)

include hk

theorem exists_cons : ∃ d u, k = d :: u ∧ isNameChar d := by
  obtain ⟨d, u, rfl⟩ := List.exists_cons_of_ne_nil hk.nonempty
  exact ⟨d, u, rfl, hk.chars d List.mem_cons_self⟩

theorem dropBlanks_append (t : Text) : dropBlanks (k ++ t) = k ++ t := by
  obtain ⟨d, u, rfl, hd⟩ := exists_cons hk
  have notBlank : isBlank d = false := by
    refine isBlank_eq_false ?_ ?_
    · rintro rfl
      cases hd
    · rintro rfl
      cases hd
  rw [dropBlanks, List.cons_append, List.dropWhile_cons_of_neg (by simp [notBlank])]

theorem name_append {c : Char} (hc : isNameChar c = false) (rest : Text) :
    name (k ++ c :: rest) = some (k, c :: rest) := by
  have stop : ¬ isNameChar c := by simp [hc]
  have first : (k ++ c :: rest).takeWhile isNameChar = k := by
    rw [List.takeWhile_append_of_pos hk.chars, List.takeWhile_cons_of_neg stop, List.append_nil]
  have behind : (k ++ c :: rest).dropWhile isNameChar = c :: rest := by
    rw [List.dropWhile_append_of_pos hk.chars, List.dropWhile_cons_of_neg stop]
  have noQuote {q : Char} {v : Text} (hq : isNameChar q = false) : k ++ c :: rest ≠ q :: v := by
    obtain ⟨d, u, rfl, hd⟩ := exists_cons hk
    rintro ⟨⟩
    rw [hq] at hd
    cases hd
  rw [name, first, behind, if_neg hk.nonempty]
  · exact fun v => noQuote rfl
  · exact fun v => noQuote rfl

theorem key_append {c : Char} (hc : isNameChar c = false) {rest : Text}
    (hdot : (dropBlanks (c :: rest)).head? ≠ some '.') :
    key (k ++ c :: rest) = some ([k], dropBlanks (c :: rest)) := by
  have levels : maxDepth = 79 + 1 := rfl
  rw [key, levels, names]
  simp only [dropBlanks_append hk, name_append hk hc, Option.bind_eq_bind, Option.bind_some]
  split
  · rename_i heq
    exact absurd (by rw [heq]; rfl) hdot
  · rfl

/-- A line that gives a name a value. -/
theorem statement_line {written : Text} {v : Toml} (hv : Stands written v) (rest : Text) :
    statement (k ++ " = " ++ written ++ '\n' :: rest) = some (.assignment [k] v, '\n' :: rest) := by
  obtain ⟨d, u, rfl, hd⟩ := exists_cons hk
  obtain ⟨e, w, rfl, he⟩ := hv.front
  have noBracket {v : Text} : d :: u ++ " = " ++ e :: w ++ '\n' :: rest ≠ '[' :: v := by
    rintro ⟨⟩
    cases hd
  have keyed : key (d :: u ++ " = " ++ e :: w ++ '\n' :: rest) =
      some ([d :: u], '=' :: ' ' :: (e :: w ++ '\n' :: rest)) := by
    rw [List.append_assoc, List.append_assoc]
    exact key_append hk rfl nofun
  have blank : dropBlanks (' ' :: (e :: w ++ '\n' :: rest)) = e :: w ++ '\n' :: rest := by
    show dropBlanks (e :: (w ++ '\n' :: rest)) = _
    rw [dropBlanks, List.dropWhile_cons_of_neg (by simp [he])]
    rfl
  rw [statement, keyed]
  · show ((value 0 _ (dropBlanks (' ' :: (e :: w ++ '\n' :: rest)))).bind fun r =>
      some (Statement.assignment [d :: u] r.1, r.2)) = _
    rw [blank, hv.read]
    rfl
  · exact fun v => noBracket
  · exact fun v => noBracket

/-- A line that names a table. -/
theorem statement_header (rest : Text) :
    statement ("[" ++ k ++ "]" ++ '\n' :: rest) = some (.header [k], '\n' :: rest) := by
  obtain ⟨d, u, rfl, hd⟩ := exists_cons hk
  have noBracket {v : Text} : d :: u ++ ']' :: '\n' :: rest ≠ '[' :: v := by
    rintro ⟨⟩
    cases hd
  have keyed : key (d :: u ++ ']' :: '\n' :: rest) = some ([d :: u], ']' :: '\n' :: rest) :=
    key_append hk rfl nofun
  have text : "[" ++ (d :: u) ++ "]" ++ '\n' :: rest = '[' :: (d :: u ++ ']' :: '\n' :: rest) := by
    simp
  rw [text, statement, keyed]
  · rfl
  · exact fun v => noBracket

end

/-! ### Texts as statements -/

/-- A text is read as statements, and they stand in front of those of what follows it. -/
structure Reads (t : Text) (ss : List Statement) : Prop where
  short : ss.length ≤ t.length
  read : ∀ steps rest,
    statementsIn (steps + ss.length) (t ++ rest) = (statementsIn steps rest).map (ss ++ ·)

namespace Reads

variable {t u : Text} {ss us : List Statement}

theorem nil : Reads [] [] := ⟨Nat.le_refl 0, fun steps rest => by simp⟩

theorem append (ht : Reads t ss) (hu : Reads u us) : Reads (t ++ u) (ss ++ us) where
  short := by
    rw [List.length_append, List.length_append]
    exact Nat.add_le_add ht.short hu.short
  read steps rest := by
    rw [List.length_append, Nat.add_comm ss.length, ← Nat.add_assoc, List.append_assoc, ht.read,
      hu.read, Option.map_map]
    simp [Function.comp_def]

/-- A line feed between statements makes no difference. -/
theorem lineFeed (h : Reads t ss) : Reads ('\n' :: t) ss where
  short := Nat.le_succ_of_le h.short
  read steps rest := by
    rw [← h.read]
    cases steps + ss.length <;> rfl

/-- A line that is read as a statement. -/
theorem line {s : Statement} {c : Char} (hc : isNameChar c ∨ c = '[')
    (hs : ∀ rest, statement (c :: t ++ '\n' :: rest) = some (s, '\n' :: rest)) :
    Reads (c :: t ++ ['\n']) [s] where
  short := by simp
  read steps rest := by
    have noGap : gap? false (c :: t ++ '\n' :: rest) = some (c :: t ++ '\n' :: rest) := by
      have other {d : Char} (hd : isNameChar d = false) (hd' : d ≠ '[') : c ≠ d := by
        rintro rfl
        exact hc.elim (fun h => by rw [hd] at h; cases h) hd'
      have notBlank : ¬ isBlank c :=
        Bool.eq_false_iff.mp (isBlank_eq_false (other rfl (by decide)) (other rfl (by decide)))
      rw [List.cons_append, gap?, if_neg (other rfl (by decide)), if_neg (other rfl (by decide)),
        if_neg Bool.false_ne_true, if_neg notBlank, if_neg (other rfl (by decide))]
    have lineEnd : lineEnd? ('\n' :: rest) = some rest := rfl
    have read : statementsIn (steps + 1) (c :: t ++ '\n' :: rest) =
        (statement (c :: t ++ '\n' :: rest)).bind fun r =>
          (lineEnd? r.2).bind fun t => (statementsIn steps t).bind fun ss => some (r.1 :: ss) := by
      rw [statementsIn, noGap]
      rfl
    rw [List.append_assoc, List.singleton_append, List.length_singleton, read, hs]
    show ((lineEnd? ('\n' :: rest)).bind fun t => (statementsIn steps t).bind fun ss =>
      some (s :: ss)) = _
    rw [lineEnd, Option.bind_some, Option.map_eq_bind]
    rfl

theorem assignment {k written : Text} {v : Toml} (hk : Bare k) (hv : Stands written v) :
    Reads (Writer.line k written) [.assignment [k] v] := by
  have read := fun rest => statement_line hk hv rest
  obtain ⟨d, u, rfl, hd⟩ := exists_cons hk
  exact line (.inl hd) read

theorem header {k : Text} (hk : Bare k) : Reads ("[" ++ k ++ "]" ++ "\n") [.header [k]] :=
  line (.inr rfl) fun rest => statement_header hk rest

/-- A whole document. -/
theorem document (h : Reads t ss) (hmark : t.head? ≠ some '\uFEFF') : statements? t = some ss := by
  have unmarked : dropMark t = t := by
    rw [dropMark.eq_def]
    split
    · exact absurd rfl hmark
    · rfl
  have steps : t.length + 1 = t.length - ss.length + 1 + ss.length := by
    have := h.short
    omega
  have read := h.read (t.length - ss.length + 1) []
  rw [List.append_nil] at read
  rw [statements?, unmarked, steps, read]
  simp [statementsIn, gap?]

end Reads

/-! ### Statements as tables -/

section

variable {k : Text} {ms : Members}

theorem update_of_notMem (h : k ∉ ms.map Prod.fst) (f : Option Toml → Option Toml) :
    update k f ms = (f none).map fun v => ms ++ [(k, v)] := by
  induction ms with
  | nil => rfl
  | cons m ms ih =>
      rw [List.map_cons, List.mem_cons, not_or] at h
      rw [update, if_neg (Ne.symm h.1), ih h.2, Option.map_map]
      rfl

theorem update_concat (h : k ∉ ms.map Prod.fst) (v : Toml) (f : Option Toml → Option Toml) :
    update k f (ms ++ [(k, v)]) = (f (some v)).map fun w => ms ++ [(k, w)] := by
  induction ms with
  | nil => 
      rw [List.nil_append, update, if_pos rfl]
      rfl
  | cons m ms ih =>
      rw [List.map_cons, List.mem_cons, not_or] at h
      rw [List.cons_append, update, if_neg (Ne.symm h.1), ih h.2, Option.map_map]
      rfl

end

/-- The statements that give a table its members. -/
def assignments (ms : Members) : List Statement := ms.map fun m => .assignment [m.1] m.2

/-- The statements that make a table: its header and its members. -/
def tableStatements (name : Text) (ms : Members) : List Statement :=
  .header [name] :: assignments ms

/-- Members one after the other. -/
theorem Reads.members {t u : Text} {ms more : Members} (ht : Reads t (assignments ms))
    (hu : Reads u (assignments more)) : Reads (t ++ u) (assignments (ms ++ more)) := by
  rw [assignments, List.map_append]
  exact ht.append hu

/-- A table under way takes members of new names. -/
theorem foldlM_assignments {name : Text} {ms : Members} (hname : name ∉ ms.map Prod.fst) :
    ∀ (given more : Members), ((given ++ more).map Prod.fst).Nodup →
      (assignments more).foldlM Document.add ⟨ms ++ [(name, table .header given)], [name]⟩ =
        some ⟨ms ++ [(name, table .header (given ++ more))], [name]⟩
  | given, [], _ => by simp [assignments]
  | given, m :: more, h => by
      have new : m.1 ∉ given.map Prod.fst := by
        rw [List.map_append, List.nodup_append] at h
        exact fun hm => h.2.2 _ hm _ List.mem_cons_self rfl
      have passed : passThrough (within (assign m.2 [m.1]) []) (some (table .header given)) =
          some (table .header (given ++ [m])) := by
        show (update m.1 _ given).map (table .header) = _
        rw [update_of_notMem new]
        rfl
      have added : Document.add ⟨ms ++ [(name, table .header given)], [name]⟩
          (.assignment [m.1] m.2) =
            some ⟨ms ++ [(name, table .header (given ++ [m]))], [name]⟩ := by
        rw [Document.add, within, update_concat hname, passed]
        rfl
      rw [assignments, List.map_cons, List.foldlM_cons, added, Option.bind_eq_bind,
        Option.bind_some, ← assignments, foldlM_assignments hname (given ++ [m]) more]
      · rw [List.append_assoc, List.singleton_append]
      · rwa [List.append_assoc, List.singleton_append]

theorem foldlM_table {name : Text} {ms given : Members} (hname : name ∉ ms.map Prod.fst)
    (hgiven : (given.map Prod.fst).Nodup) (current : List Text) :
    (tableStatements name given).foldlM Document.add ⟨ms, current⟩ =
      some ⟨ms ++ [(name, table .header given)], [name]⟩ := by
  have opened : Document.add ⟨ms, current⟩ (.header [name]) =
      some ⟨ms ++ [(name, table .header [])], [name]⟩ := by
    rw [Document.add, openTable, update_of_notMem hname]
    rfl
  rw [tableStatements, List.foldlM_cons, opened, Option.bind_eq_bind, Option.bind_some]
  exact foldlM_assignments hname [] given hgiven

theorem foldlM_tables :
    ∀ (ms : Members) (tables : List (Text × Members)) (current : List Text),
      (ms.map Prod.fst ++ tables.map Prod.fst).Nodup →
      (∀ m ∈ tables, (m.2.map Prod.fst).Nodup) →
      ∃ current', (tables.flatMap fun m => tableStatements m.1 m.2).foldlM Document.add
          ⟨ms, current⟩ =
        some ⟨ms ++ tables.map fun m => (m.1, table .header m.2), current'⟩
  | ms, [], current, _, _ => ⟨current, by simp⟩
  | ms, m :: tables, current, names, members => by
      rw [List.forall_mem_cons] at members
      have new : m.1 ∉ ms.map Prod.fst := by
        rw [List.nodup_append] at names
        exact fun hm => names.2.2 _ hm _ List.mem_cons_self rfl
      have further : ((ms ++ [(m.1, table .header m.2)]).map Prod.fst ++
          tables.map Prod.fst).Nodup := by
        simpa using names
      obtain ⟨current', h⟩ := foldlM_tables _ tables [m.1] further members.2
      refine ⟨current', ?_⟩
      rw [List.flatMap_cons, List.foldlM_append, foldlM_table new members.1, Option.bind_eq_bind,
        Option.bind_some, h]
      simp

/-- **Tables that are written out** are the members of the document, in order. -/
theorem ofStatements?_tables {tables : List (Text × Members)} (names : (tables.map Prod.fst).Nodup)
    (members : ∀ m ∈ tables, (m.2.map Prod.fst).Nodup) :
    ofStatements? (tables.flatMap fun m => tableStatements m.1 m.2) =
      some (tables.map fun m => (m.1, table .header m.2)) := by
  obtain ⟨current, h⟩ := foldlM_tables [] tables [] names members
  rw [ofStatements?, h]
  rfl

/-- A text that is read as tables has them as its members. -/
theorem read_of_reads {t : Text} {tables : List (Text × Members)}
    (h : Reads t (tables.flatMap fun m => tableStatements m.1 m.2))
    (hmark : t.head? ≠ some '\uFEFF') (names : (tables.map Prod.fst).Nodup)
    (members : ∀ m ∈ tables, (m.2.map Prod.fst).Nodup) :
    read t = some (tables.map fun m => (m.1, table .header m.2)) := by
  rw [read, h.document hmark]
  exact ofStatements?_tables names members

end EventLog.Toml
