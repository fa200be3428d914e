import EventLog.Encoder
import EventLog.Pieces
import EventLog.Proofs.Encoding.Absent
import EventLog.Proofs.Encoding.Shown

/-!
# Reading structured data

What an event is written as in structured data is read without knowledge of the event.  A backslash
takes the character behind it with it, and every other character is a sign by itself (`signs`).
Quotes that are such signs end names and lists in turn, and such commas cut a list into its texts
(`read`).

* `read_render`: an event is read back as its names with their texts (`parameters`).
* `closedByBracket_render`: the bracket at the end is the only one without an odd run of backslashes
  before it.
* `encode_syslog_prefix`: therefore no encoding begins another one, and encodings are the same if
  and only if their events have the same names and texts.
-/

namespace EventLog.StructuredData

/-! ### Signs -/

/-- A character that is read, and whether a backslash stands before it. -/
structure Sign where
  char : Char
  escaped : Bool
deriving DecidableEq

/-- The character that is meant by one behind a backslash. -/
def unescaped : Char → Char
  | '0' => '\x00'
  | 'n' => '\n'
  | c   => c

/-- The signs of a text. -/
def signs : Text → List Sign
  | '\\' :: c :: t => ⟨unescaped c, true⟩ :: signs t
  | c :: t         => ⟨c, false⟩ :: signs t
  | []             => []

theorem signs_cons {c : Char} (hc : c ≠ '\\') (t : Text) :
    signs (c :: t) = ⟨c, false⟩ :: signs t := by
  rw [signs]
  rintro _ _ rfl
  exact absurd rfl hc

theorem signs_ne_nil {t : Text} (ht : t ≠ []) : signs t ≠ [] := by
  fun_cases signs t <;> simp_all

/-- The signs of a text stand in front of the signs of what follows it. -/
def Spells (t : Text) (ss : List Sign) : Prop := ∀ rest, signs (t ++ rest) = ss ++ signs rest

namespace Spells

theorem nil : Spells [] [] := fun _ => rfl

theorem append {t u : Text} {ss us : List Sign} (ht : Spells t ss) (hu : Spells u us) :
    Spells (t ++ u) (ss ++ us) := by
  intro rest
  rw [List.append_assoc, ht, hu, List.append_assoc]

theorem flatMap {α : Type} {text : α → Text} {ss : α → List Sign}
    (h : ∀ x, Spells (text x) (ss x)) (xs : List α) :
    Spells (xs.flatMap text) (xs.flatMap ss) := by
  induction xs with
  | nil => exact nil
  | cons x xs ih => exact (h x).append ih

theorem intercalate {sep : Text} {between : List Sign} (hsep : Spells sep between) {α : Type}
    {text : α → Text} {ss : α → List Sign} (h : ∀ x, Spells (text x) (ss x)) :
    ∀ xs : List α, Spells (sep.intercalate (xs.map text)) (between.intercalate (xs.map ss))
  | [] => nil
  | [x] => by simpa using h x
  | x :: y :: xs => by
      simp only [List.map_cons, List.intercalate_cons_cons]
      exact ((h x).append hsep).append (intercalate hsep h (y :: xs))

end Spells

/-- A character other than a backslash. -/
theorem spells_char {c : Char} (hc : c ≠ '\\') : Spells [c] [⟨c, false⟩] := signs_cons hc

/-- The sign that a character is written as. -/
def mark (c : Char) : Sign := ⟨c, Escape.structuredChar c ≠ [c]⟩

theorem spells_structuredChar (c : Char) : Spells (Escape.structuredChar c) [mark c] := by
  fun_cases Escape.structuredChar c with
  | case1 | case2 | case3 | case4 | case5 | case6 => exact fun rest => rfl
  | case7 =>
      have self : Escape.structuredChar c = [c] := by
        rw [Escape.structuredChar] <;> assumption
      rw [mark, self]
      simpa using spells_char ‹_›

theorem spells_structured (t : Text) : Spells (Escape.structured t) (t.map mark) := by
  have := Spells.flatMap spells_structuredChar t
  rwa [← List.map_eq_flatMap] at this

/-- No text has a sign of its own that is a bare character, if this is one of those to escape. -/
theorem bare_notMem_map_mark {x : Char} (hx : Escape.structuredChar x ≠ [x]) (t : Text) :
    ⟨x, false⟩ ∉ t.map mark := by
  rw [List.mem_map]
  rintro ⟨c, -, hc⟩
  obtain ⟨rfl, bare⟩ := Sign.mk.inj hc
  simp [hx] at bare

/-! ### Entries -/

/-- A list of texts, and for none the empty text. -/
def orEmpty (ts : List Text) : List Text := if ts = [] then [[]] else ts

theorem orEmpty_ne_nil (ts : List Text) : orEmpty ts ≠ [] := by
  rw [orEmpty]
  split <;> simp_all

theorem parameter_orEmpty (name : Text) (ts : List Text) :
    Layout.parameter name (orEmpty ts) = Layout.parameter name ts := by
  rw [orEmpty]
  split <;> simp_all [Layout.parameter, Text.commaList, Escape.structured]

/-- The entries of an event as names with texts: the tags, if there is a bucket, and the fields that
are shown. -/
def parameters (flags : Flags) (e : Event) : List (Text × List Text) :=
  (e.tags.map fun tags => (Event.tagsName, orEmpty tags)).toList ++
    (e.shownFields flags).map fun f => (f.label, orEmpty f.texts)

theorem render_eq (flags : Flags) (e : Event) :
    Layout.structuredData.render flags e =
      Layout.structuredData.opening ++
        ((parameters flags e).flatMap fun p => ' ' :: Layout.parameter p.1 p.2) ++ [']'] := by
  have entries : Layout.structuredData.entries flags e =
      (parameters flags e).map fun p => Layout.parameter p.1 p.2 := by
    rw [Layout.entries_of_wantsTags _ rfl, Layout.keptFields_eq_shownFields, parameters]
    cases e.tags <;> simp [parameter_orEmpty, Layout.structuredData]
  rw [Layout.render, entries]
  show Layout.structuredData.opening ++ List.flatMap _ (List.map _ _) ++ [']'] = _
  rw [List.flatMap_map]

/-- The signs of a name, with the blank before it and the sign of equality behind it. -/
def nameSigns (name : Text) : List Sign := ⟨' ', false⟩ :: (name.map mark ++ [⟨'=', false⟩])

/-- The signs of a list of texts. -/
def listSigns (ts : List Text) : List Sign := [⟨',', false⟩].intercalate (ts.map (List.map mark))

/-- The signs of an entry, with the blank before it. -/
def entrySigns (p : Text × List Text) : List Sign :=
  nameSigns p.1 ++ ⟨'"', false⟩ :: (listSigns p.2 ++ [⟨'"', false⟩])

theorem spells_entry (p : Text × List Text) :
    Spells (' ' :: Layout.parameter p.1 p.2) (entrySigns p) := by
  have blank := spells_char (c := ' ') (by decide)
  have equality := spells_char (c := '=') (by decide)
  have comma := spells_char (c := ',') (by decide)
  have quote := spells_char (c := '"') (by decide)
  have list := Spells.intercalate comma spells_structured p.2
  have all := ((((blank.append (spells_structured p.1)).append equality).append quote).append
    list).append quote
  simpa [Layout.parameter, entrySigns, nameSigns, listSigns, Text.commaList] using all

/-- No entry has a sign that is a bare character, if this is one of those to escape. -/
theorem bare_notMem_listSigns {x : Char} (hx : Escape.structuredChar x ≠ [x]) (hc : x ≠ ',')
    (ts : List Text) : ⟨x, false⟩ ∉ listSigns ts := by
  refine notMem_intercalate (by simpa using hc) fun l hl => ?_
  obtain ⟨t, -, rfl⟩ := List.mem_map.mp hl
  exact bare_notMem_map_mark hx t

theorem bare_notMem_nameSigns {x : Char} (hx : Escape.structuredChar x ≠ [x]) (name : Text) :
    ⟨x, false⟩ ∉ nameSigns name := by
  have blank : x ≠ ' ' := by rintro rfl; exact hx rfl
  have equality : x ≠ '=' := by rintro rfl; exact hx rfl
  simp [nameSigns, blank, equality, bare_notMem_map_mark hx name]

/-! ### The reader -/

/-- A quote that no backslash escapes. -/
def isQuote (s : Sign) : Bool := s = ⟨'"', false⟩

/-- A comma that no backslash escapes. -/
def isComma (s : Sign) : Bool := s = ⟨',', false⟩

/-- Names and lists in turn, as names with their texts. -/
def paired : List (List Sign) → List (Text × List Text)
  | name :: list :: rest =>
    (name.tail.dropLast.map Sign.char, (pieces isComma list).map (List.map Sign.char)) ::
      paired rest
  | _ => []

/-- The names with their texts that are read from an element. -/
def read (t : Text) : List (Text × List Text) :=
  paired (pieces isQuote (signs (t.drop Layout.structuredData.opening.length)))

theorem map_char_mark (t : Text) : (t.map mark).map Sign.char = t := by
  rw [List.map_map]
  exact List.map_id t

theorem pieces_listSigns {ts : List Text} (hts : ts ≠ []) :
    pieces isComma (listSigns ts) = ts.map (List.map mark) := by
  refine pieces_intercalate isComma rfl (by simpa using hts) fun l hl => ?_
  obtain ⟨t, -, rfl⟩ := List.mem_map.mp hl
  exact separates_eq_false_of_notMem _ (fun _ => of_decide_eq_true)
    (bare_notMem_map_mark (by decide) t)

theorem pieces_entries (ps : List (Text × List Text)) {last : List Sign}
    (hlast : ⟨'"', false⟩ ∉ last) :
    pieces isQuote (ps.flatMap entrySigns ++ last) =
      (ps.flatMap fun p => [nameSigns p.1, listSigns p.2]) ++ [last] := by
  have whole {ss : List Sign} (h : ⟨'"', false⟩ ∉ ss) : pieces isQuote ss = [ss] :=
    pieces_eq_singleton _ (separates_eq_false_of_notMem _ (fun _ => of_decide_eq_true) h)
  induction ps with
  | nil => exact whole hlast
  | cons p ps ih =>
      have name := whole (bare_notMem_nameSigns (x := '"') (by decide) p.1)
      have list := whole (bare_notMem_listSigns (x := '"') (by decide) (by decide) p.2)
      rw [List.flatMap_cons, List.flatMap_cons, entrySigns]
      simp only [List.append_assoc, List.cons_append, List.nil_append]
      rw [pieces_append_cons isQuote _ _ rfl, pieces_append_cons isQuote _ _ rfl, name, list, ih]
      rfl

theorem paired_entries {ps : List (Text × List Text)} (hps : ∀ p ∈ ps, p.2 ≠ [])
    (last : List Sign) :
    paired ((ps.flatMap fun p => [nameSigns p.1, listSigns p.2]) ++ [last]) = ps := by
  induction ps with
  | nil => rfl
  | cons p ps ih =>
      rw [List.forall_mem_cons] at hps
      have name : (nameSigns p.1).tail.dropLast.map Sign.char = p.1 := by
        rw [nameSigns, List.tail_cons, List.dropLast_concat, map_char_mark]
      have list : (pieces isComma (listSigns p.2)).map (List.map Sign.char) = p.2 := by
        rw [pieces_listSigns hps.1, List.map_map]
        exact (List.map_congr_left fun t _ => map_char_mark t).trans (List.map_id p.2)
      simp only [List.flatMap_cons, List.cons_append, List.nil_append, paired, name, list, ih hps.2]

/-- An event is read back as its names with their texts. -/
theorem read_render (flags : Flags) (e : Event) :
    read (Layout.structuredData.render flags e) = parameters flags e := by
  have texts : ∀ p ∈ parameters flags e, p.2 ≠ [] := by
    intro p hp
    simp only [parameters, List.mem_append, Option.mem_toList, Option.map_eq_some_iff,
      List.mem_map] at hp
    obtain ⟨_, -, rfl⟩ | ⟨_, -, rfl⟩ := hp <;> exact orEmpty_ne_nil _
  have entries := Spells.flatMap spells_entry (parameters flags e) [']']
  rw [read, render_eq, List.append_assoc, List.drop_left, entries,
    signs_cons (by decide), pieces_entries _ (by decide), paired_entries texts]

/-! ### Brackets -/

/-- The number of backslashes at the end of a text. -/
def backslashRun (t : Text) : Nat := (t.reverse.takeWhile (· = '\\')).length

theorem backslashRun_append (s t : Text) :
    backslashRun (s ++ t) =
      if backslashRun t = t.length then backslashRun t + backslashRun s else backslashRun t := by
  rw [backslashRun, List.reverse_append, List.takeWhile_append, List.length_reverse]
  simp only [backslashRun]
  split <;> simp_all

/-- A character takes no part in the run behind it, but for a backslash. -/
theorem backslashRun_cons {c : Char} (hc : c ≠ '\\') (t : Text) :
    backslashRun (c :: t) = backslashRun t := by
  have one : backslashRun [c] = 0 := by simp [backslashRun, hc]
  rw [← List.singleton_append, backslashRun_append, one]
  split <;> rfl

/-- A backslash and the character behind it do not change whether the run is odd. -/
theorem backslashRun_pair (c : Char) (t : Text) :
    backslashRun ('\\' :: c :: t) % 2 = backslashRun t % 2 := by
  have pair : backslashRun ['\\', c] % 2 = 0 := by
    by_cases hc : c = '\\'
    · rw [hc]
      rfl
    · simp [backslashRun, hc]
  rw [show '\\' :: c :: t = ['\\', c] ++ t from rfl, backslashRun_append]
  split <;> omega

/-- A bracket is read as escaped if and only if an odd run of backslashes stands before it. -/
theorem signs_append_bracket (s t : Text) :
    ∃ before, signs (s ++ ']' :: t) = before ++ ⟨']', backslashRun s % 2 = 1⟩ :: signs t := by
  fun_induction signs s with
  | case1 c s ih =>
      obtain ⟨before, hbefore⟩ := ih
      exact ⟨⟨unescaped c, true⟩ :: before, by
        simp only [List.cons_append, signs, hbefore, backslashRun_pair]⟩
  | case2 c s hc ih =>
      by_cases backslash : c = '\\'
      · -- A backslash with nothing behind it takes the bracket.
        obtain rfl : s = [] := by
          cases s with
          | nil => rfl
          | cons d s => exact (hc d s backslash rfl).elim
        subst backslash
        exact ⟨[], rfl⟩
      · obtain ⟨before, hbefore⟩ := ih
        exact ⟨⟨c, false⟩ :: before, by
          rw [List.cons_append, signs_cons backslash, hbefore, backslashRun_cons backslash,
            List.cons_append]⟩
  | case3 => exact ⟨[], rfl⟩

/-- The last character is a bracket, and the only one that has no odd run of backslashes before
it. -/
structure ClosedByBracket (t : Text) : Prop where
  last : t.getLast? = some ']'
  only : ∀ before after, t = before ++ ']' :: after → (backslashRun before % 2 = 0 ↔ after = [])

/-- The last bracket is the only one of this kind if it is the only one that is read as such. -/
theorem closedByBracket {t : Text} {ss : List Sign} (ht : Spells t ss) (hss : ⟨']', false⟩ ∉ ss) :
    ClosedByBracket (t ++ [']']) := by
  refine ⟨List.getLast?_concat, fun before after hcut => ?_⟩
  obtain ⟨read, hread⟩ := signs_append_bracket before after
  have whole : ss ++ [⟨']', false⟩] =
      read ++ ⟨']', backslashRun before % 2 = 1⟩ :: signs after := by
    rw [← hread, ← hcut]
    exact (ht [']']).symm
  constructor
  · intro even
    by_cases further : after = []
    · exact further
    · -- With more behind it, the bracket would be one of the signs of the text.
      have inner := congrArg List.dropLast whole
      rw [List.dropLast_concat, List.dropLast_append_of_ne_nil (List.cons_ne_nil _ _),
        List.dropLast_cons_of_ne_nil (signs_ne_nil further)] at inner
      have bare : ¬ backslashRun before % 2 = 1 := by omega
      rw [inner, decide_eq_false bare] at hss
      exact absurd List.mem_append_cons_self hss
  · rintro rfl
    have same := (List.append_inj' whole rfl).2
    simp only [signs, List.cons.injEq, Sign.mk.injEq, true_and, and_true] at same
    have even : ¬ backslashRun before % 2 = 1 := of_decide_eq_false same.symm
    omega

/-- No text of this kind begins another one. -/
theorem ClosedByBracket.eq_of_prefix {t u : Text} (ht : ClosedByBracket t) (hu : ClosedByBracket u)
    (h : t <+: u) : t = u := by
  obtain ⟨rest, rfl⟩ := h
  obtain ⟨before, rfl⟩ := List.getLast?_eq_some_iff.mp ht.last
  have bare := (ht.only before [] rfl).mpr rfl
  rw [(hu.only before rest (by simp)).mp bare, List.append_nil]

/-- The element of an event is closed by its bracket. -/
theorem closedByBracket_render (flags : Flags) (e : Event) :
    ClosedByBracket (Layout.structuredData.render flags e) := by
  have opening : Spells Layout.structuredData.opening (signs Layout.structuredData.opening) :=
    fun _ => rfl
  have entries := Spells.flatMap spells_entry (parameters flags e)
  rw [render_eq]
  refine closedByBracket (opening.append entries) ?_
  have inner : ⟨']', false⟩ ∉ (parameters flags e).flatMap entrySigns := by
    simp [entrySigns, bare_notMem_nameSigns (x := ']') (by decide),
      bare_notMem_listSigns (x := ']') (by decide) (by decide)]
  rw [List.mem_append, not_or]
  exact ⟨by decide, inner⟩

/-! ### Main statement -/

/-- **Structured data is self-delimiting and loses nothing** but what it has no form for.  No
encoding of an event begins another one, events with the same encoding are those with the same
entries, and in an encoding no line feed and no NUL stands, and no bracket but the last one without
an odd run of backslashes before it. -/
theorem encode_syslog_prefix (flags flags' : Flags) (e e' : Event) :
    let written := Encoder.syslog.encode flags e
    let written' := Encoder.syslog.encode flags' e'
    (written <+: written' ↔ written = written') ∧
      (written = written' ↔ parameters flags e = parameters flags' e') ∧
      '\n' ∉ written ∧ '\x00' ∉ written ∧ ClosedByBracket written := by
  intro written written'
  have closed := closedByBracket_render flags e
  have closed' := closedByBracket_render flags' e'
  refine ⟨⟨closed.eq_of_prefix closed', fun h => h ▸ List.prefix_rfl⟩, ⟨fun h => ?_, fun h => ?_⟩,
    Layout.notMem_structuredData (.inl rfl) flags e,
    Layout.notMem_structuredData (.inr rfl) flags e, closed⟩
  · rw [← read_render, ← read_render]
    exact congrArg read h
  · show Layout.structuredData.render flags e = Layout.structuredData.render flags' e'
    rw [render_eq, render_eq, h]

/-- Tags, a field without values, one without a name, and every character that is escaped. -/
theorem encode_syslog_prefix_escapes :
    let e : Event := ⟨some ["t]", ""],
      [⟨some "a\"b", []⟩, ⟨none, [.string "x,\n", .number 7, .string "\x00\\"]⟩]⟩
    let e' : Event := { e with fields := e.fields ++ [.single "c" (.string "")] }
    let tags : Text × List Text := ("event.tags", ["t]", ""])
    let empty : Text × List Text := ("a\"b", [""])
    let unnamed : Text × List Text := ("", ["x,\n", "7", "\x00\\"])
    let written : Text := "[cee@115 event.tags=\"t\\],\" a\\\"b=\"\" =\"x\\,\\n,7,\\0\\\\\"]"
    Encoder.syslog.encode ⟨false, false⟩ e = written ∧ ClosedByBracket written ∧
      ¬ written <+: Encoder.syslog.encode ⟨false, false⟩ e' ∧
      Encoder.syslog.encode ⟨true, true⟩ e ≠ written ∧
      parameters ⟨false, false⟩ e = [tags, empty, unnamed] ∧
      parameters ⟨true, true⟩ e = [tags, unnamed] := by
  intro e e' tags empty unnamed written
  have text : Encoder.syslog.encode ⟨false, false⟩ e = written := by decide +kernel
  have longer := encode_syslog_prefix ⟨false, false⟩ ⟨false, false⟩ e e'
  have compact := encode_syslog_prefix ⟨true, true⟩ ⟨false, false⟩ e e
  simp only [text] at longer compact
  obtain ⟨⟨same, -⟩, entries, -, -, closed⟩ := longer
  refine ⟨text, closed, ?_, ?_, by decide +kernel, by decide +kernel⟩
  · intro h
    exact absurd (entries.mp (same h)) (by decide +kernel)
  · intro h
    exact absurd (compact.2.1.mp h) (by decide +kernel)

end EventLog.StructuredData
