import EventLog.Encoder
import EventLog.Pieces
import EventLog.Proofs.Encoding.Shown

/-!
# Reading elements

A reader of XML finds a tag behind each `<`, and the value of an attribute between two double
quotes.  Escaped text has no `<`, and so the tags of an event are the ones that its layout writes
(`pieces_render`).  It keeps double quotes, though, and a name is escaped like any other text.

* `resolve_markup`: escaped text means the text that was escaped.
* `startTags_encode`: the start tags that are read are those of the fields, one for each.  The name
  in a tag ends at the first double quote of the name of the field, and is this name if and only if
  it has none; what follows such a quote is read as something else of the tag.
-/

namespace EventLog.Markup

/-! ### Escaped text -/

/-- The text that is meant by escaped text. -/
def resolve : Text → Text
  | '&' :: 'l' :: 't' :: ';' :: t        => '<' :: resolve t
  | '&' :: 'a' :: 'm' :: 'p' :: ';' :: t => '&' :: resolve t
  | '&' :: '#' :: '0' :: '0' :: ';' :: t => '\x00' :: resolve t
  | c :: t                               => c :: resolve t
  | []                                   => []

theorem resolve_markupChar (c : Char) (t : Text) :
    resolve (Escape.markupChar c ++ t) = c :: resolve t := by
  fun_cases Escape.markupChar c with
  | case1 | case2 | case3 => rfl
  | case4 =>
      rw [List.singleton_append, resolve] <;>
        · rintro _ rfl
          contradiction

theorem resolve_markup (t : Text) : resolve (Escape.markup t) = t := by
  induction t with
  | nil => rfl
  | cons c t ih =>
      rw [Escape.markup, List.flatMap_cons, resolve_markupChar, ← Escape.markup, ih]

theorem lessThan_notMem_markup (t : Text) : '<' ∉ Escape.markup t := by
  have char (c : Char) : '<' ∉ Escape.markupChar c := by
    fun_cases Escape.markupChar c <;> simp_all [eq_comm]
  simp [Escape.markup, char]

/-- Escaped text has the double quotes of the text, and no others. -/
theorem quote_mem_markup {t : Text} : '"' ∈ Escape.markup t ↔ '"' ∈ t := by
  have char (c : Char) : '"' ∈ Escape.markupChar c ↔ '"' = c := by
    fun_cases Escape.markupChar c <;> simp_all
  simp [Escape.markup, char]

/-! ### Tags -/

/-- An element around text and other elements, as tags with the text behind each. -/
def elementParts (name text : Text) (inner : List Text) : List Text :=
  (name ++ ['>'] ++ text) :: inner ++ [['/'] ++ name ++ ['>']]

/-- Elements of one name around texts. -/
def textParts (name : Text) (ts : List Text) : List Text :=
  ts.flatMap fun t => elementParts name (Escape.markup t) []

/-- What begins the start tag of a field. -/
def fieldStart : Text := "Field name =\""

/-- The element of a field. -/
def fieldParts (f : Field) : List Text :=
  (fieldStart ++ Escape.markup f.label ++ "\">".toList) :: textParts "value" f.texts ++
    ["/Field>".toList]

/-- The element of the tags, if there is a bucket. -/
def bucketParts : Option (List Text) → List Text
  | none      => []
  | some tags => elementParts Event.tagsName [] (textParts "tag" tags)

/-- The element of an event. -/
def eventParts (flags : Flags) (e : Event) : List Text :=
  elementParts "event" []
    (bucketParts e.tags ++ (e.shownFields flags).flatMap fieldParts)

/-- Tags with the text behind each, one after the other. -/
def marked (ps : List Text) : Text := ps.flatMap fun p => '<' :: p

@[simp] theorem marked_cons (p : Text) (ps : List Text) :
    marked (p :: ps) = '<' :: p ++ marked ps :=
  List.flatMap_cons

@[simp] theorem marked_append (ps qs : List Text) : marked (ps ++ qs) = marked ps ++ marked qs :=
  List.flatMap_append

theorem marked_elementParts (name text : Text) (inner : List Text) :
    marked (elementParts name text inner) = Layout.element name (text ++ marked inner) := by
  have stop : marked [['/'] ++ name ++ ['>']] = "</".toList ++ name ++ ['>'] := by simp [marked]
  rw [elementParts, List.cons_append, marked_cons, marked_append, stop]
  simp [Layout.element]

theorem marked_textParts (name : Text) (ts : List Text) :
    marked (textParts name ts) = Layout.elements name ts := by
  induction ts with
  | nil => rfl
  | cons t ts ih =>
      have text : Escape.markup t ++ marked [] = Escape.markup t := List.append_nil _
      rw [textParts, List.flatMap_cons, marked_append, marked_elementParts, text, ← textParts, ih]
      rfl

theorem marked_fieldParts (compact : Bool) (f : Field) :
    marked (fieldParts f) = Layout.xmlElement.fieldEntry compact f := by
  have start : "<Field name =\"".toList = '<' :: fieldStart := rfl
  have stop : marked ["/Field>".toList] = "</Field>".toList := rfl
  rw [fieldParts, List.cons_append, marked_cons, marked_append, marked_textParts, stop]
  show _ = "<Field name =\"".toList ++ Escape.markup f.label ++ "\">".toList ++
    Layout.elements "value" f.texts ++ "</Field>".toList
  simp only [start, List.cons_append, List.append_assoc]

theorem marked_flatMap_fieldParts (compact : Bool) (fs : List Field) :
    marked (fs.flatMap fieldParts) = (fs.map (Layout.xmlElement.fieldEntry compact)).flatten := by
  induction fs with
  | nil => rfl
  | cons f fs ih =>
      rw [List.flatMap_cons, marked_append, ih, marked_fieldParts compact]
      rfl

theorem marked_bucketParts (tags : Option (List Text)) :
    marked (bucketParts tags) = (tags.map Layout.xmlElement.tagsEntry).toList.flatten := by
  cases tags with
  | none => rfl
  | some tags =>
      rw [bucketParts, marked_elementParts, marked_textParts]
      exact (List.append_nil _).symm

theorem render_eq (flags : Flags) (e : Event) :
    Layout.xmlElement.render flags e = marked (eventParts flags e) := by
  have opening : "<event>".toList = "<".toList ++ "event".toList ++ ">".toList := rfl
  have closing : "</event>".toList = "</".toList ++ ("event".toList ++ ">".toList) := rfl
  have entries : (Layout.xmlElement.entries flags e).flatten =
      marked (bucketParts e.tags ++ (e.shownFields flags).flatMap fieldParts) := by
    rw [marked_append, marked_bucketParts, marked_flatMap_fieldParts flags.ultraCompact,
      Layout.entries_of_wantsTags _ rfl, Layout.keptFields_eq_shownFields, List.flatten_append]
  rw [eventParts, marked_elementParts, ← entries]
  show "<event>".toList ++ _ ++ "</event>".toList = _
  simp only [opening, closing, Layout.element, List.append_assoc, List.nil_append]
  rfl

/-- No tag has another one inside. -/
theorem lessThan_notMem_eventParts (flags : Flags) (e : Event) :
    ∀ p ∈ eventParts flags e, '<' ∉ p := by
  have element {name text : Text} (hname : '<' ∉ name) (htext : '<' ∉ text) {inner : List Text}
      (h : ∀ p ∈ inner, '<' ∉ p) : ∀ p ∈ elementParts name text inner, '<' ∉ p := by
    rw [elementParts, List.cons_append, List.forall_mem_cons, List.forall_mem_append]
    refine ⟨?_, h, ?_⟩ <;> simp [hname, htext]
  have texts {name : Text} (hname : '<' ∉ name) (ts : List Text) :
      ∀ p ∈ textParts name ts, '<' ∉ p := by
    rw [textParts, List.forall_mem_flatMap]
    exact fun t _ => element hname (lessThan_notMem_markup t) (by simp)
  have field (f : Field) : ∀ p ∈ fieldParts f, '<' ∉ p := by
    rw [fieldParts, List.cons_append, List.forall_mem_cons, List.forall_mem_append]
    have start : '<' ∉ fieldStart := by decide
    refine ⟨?_, texts (by decide) f.texts, by decide⟩
    simp [start, lessThan_notMem_markup]
  refine element (by decide) (by simp) ?_
  rw [List.forall_mem_append, List.forall_mem_flatMap]
  refine ⟨?_, fun f _ => field f⟩
  cases e.tags with
  | none => simp [bucketParts]
  | some tags => exact element (by decide) (by simp) (texts (by decide) tags)

/-- Whether a character begins a tag. -/
def isLessThan (c : Char) : Bool := c = '<'

theorem pieces_render (flags : Flags) (e : Event) :
    pieces isLessThan (Layout.xmlElement.render flags e) = [] :: eventParts flags e := by
  rw [render_eq, ← List.nil_append (marked _)]
  refine pieces_append_flatMap_cons isLessThan rfl ?_
  have none : ∀ p ∈ [] :: eventParts flags e, '<' ∉ p :=
    List.forall_mem_cons.mpr ⟨List.not_mem_nil, lessThan_notMem_eventParts flags e⟩
  exact fun p hp => separates_eq_false_of_notMem _ (fun _ => of_decide_eq_true) (none p hp)

/-! ### Start tags of fields -/

/-- What is read of the start tag of a field. -/
structure StartTag where
  /-- What the value of the name attribute means. -/
  name : Text
  /-- What follows the attribute. -/
  rest : Text
deriving DecidableEq

/-- The start tag of a field behind its beginning.  The value of the attribute ends at the next
double quote. -/
def StartTag.read (t : Text) : StartTag :=
  ⟨resolve (t.takeWhile (· ≠ '"')), (t.dropWhile (· ≠ '"')).tail⟩

/-- The start tag of a field, if a part is one. -/
def startTag? (part : Text) : Option StartTag := (fieldStart.isPrefixOf? part).map StartTag.read

/-- The start tags of fields in a document. -/
def startTags (t : Text) : List StartTag := (pieces isLessThan t).filterMap startTag?

/-- The start tag that is read for a field: its name up to the first double quote, and all that is
written behind this. -/
def StartTag.ofField (f : Field) : StartTag :=
  ⟨f.label.takeWhile (· ≠ '"'), (Escape.markup (f.label.dropWhile (· ≠ '"')) ++ "\">".toList).tail⟩

namespace StartTag

/-- A name without double quotes, and what follows the quote behind it. -/
theorem read_markup {name : Text} (hname : '"' ∉ name) (rest : Text) :
    read (Escape.markup name ++ '"' :: rest) = ⟨name, rest⟩ := by
  have escaped : '"' ∉ Escape.markup name := fun h => hname (quote_mem_markup.mp h)
  have quote : ('"' :: rest).head?.all (· = '"') := rfl
  rw [read, Text.takeWhile_ne_append escaped quote, Text.dropWhile_ne_append escaped quote,
    resolve_markup, List.tail_cons]

variable {f : Field}

theorem ofField_of_notMem (h : '"' ∉ f.label) : ofField f = ⟨f.label, ['>']⟩ := by
  have whole : (f.label ++ []).takeWhile (· ≠ '"') = f.label := Text.takeWhile_ne_append h rfl
  have none : (f.label ++ []).dropWhile (· ≠ '"') = [] := Text.dropWhile_ne_append h rfl
  rw [List.append_nil] at whole none
  rw [ofField, whole, none]
  rfl

theorem ofField_of_eq {before after : Text} (hbefore : '"' ∉ before)
    (h : f.label = before ++ '"' :: after) :
    ofField f = ⟨before, Escape.markup after ++ "\">".toList⟩ := by
  have quote : ('"' :: after).head?.all (· = '"') := rfl
  rw [ofField, h, Text.takeWhile_ne_append hbefore quote, Text.dropWhile_ne_append hbefore quote]
  rfl

/-- The name that is read is the one of the field, and all of its start tag, if no double quote is
in the name, and only then. -/
theorem ofField_eq_iff (f : Field) :
    ((ofField f).name = f.label ↔ '"' ∉ f.label) ∧ ((ofField f).rest = ['>'] ↔ '"' ∉ f.label) := by
  by_cases h : '"' ∈ f.label
  · obtain ⟨before, after, hlabel, hbefore⟩ := List.eq_append_cons_of_mem h
    rw [ofField_of_eq hbefore hlabel]
    constructor
    · refine iff_of_false (fun name => ?_) (not_not_intro h)
      have same : before = f.label := name
      exact hbefore (same ▸ h)
    · refine iff_of_false (fun rest => ?_) (not_not_intro h)
      have length := congrArg List.length rest
      simp at length
  · simp [ofField_of_notMem h, h]

end StartTag

open StartTag

theorem startTag?_field (f : Field) :
    startTag? (fieldStart ++ Escape.markup f.label ++ "\">".toList) = some (ofField f) := by
  have start (t : Text) : startTag? (fieldStart ++ t) = some (read t) := rfl
  rw [List.append_assoc, start]
  by_cases h : '"' ∈ f.label
  · -- The first double quote of the name is written as it is, and ends the value.
    obtain ⟨before, after, hlabel, hbefore⟩ := List.eq_append_cons_of_mem h
    have escaped : Escape.markup f.label =
        Escape.markup before ++ '"' :: Escape.markup after := by
      rw [hlabel]
      exact List.flatMap_append
    rw [escaped, List.append_assoc, List.cons_append, read_markup hbefore,
      ofField_of_eq hbefore hlabel]
  · rw [ofField_of_notMem h]
    exact congrArg some (read_markup h ['>'])

/-- Elements of other names add no start tags to those inside. -/
theorem startTags_elementParts {name : Text} (hname : ∀ t, startTag? (name ++ t) = none)
    (text : Text) (inner : List Text) :
    (elementParts name text inner).filterMap startTag? = inner.filterMap startTag? := by
  have start : startTag? (name ++ ['>'] ++ text) = none := by rw [List.append_assoc, hname]
  have stop : startTag? (['/'] ++ name ++ ['>']) = none := rfl
  rw [elementParts, List.cons_append, List.filterMap_cons_none start, List.filterMap_append,
    List.filterMap_cons_none stop, List.filterMap_nil, List.append_nil]

theorem startTags_textParts {name : Text} (hname : ∀ t, startTag? (name ++ t) = none)
    (ts : List Text) : (textParts name ts).filterMap startTag? = [] := by
  induction ts with
  | nil => rfl
  | cons t ts ih =>
      rw [textParts, List.flatMap_cons, List.filterMap_append, startTags_elementParts hname,
        ← textParts, ih]
      rfl

theorem startTags_fieldParts (f : Field) : (fieldParts f).filterMap startTag? = [ofField f] := by
  have stop : ["/Field>".toList].filterMap startTag? = [] := rfl
  rw [fieldParts, List.cons_append, List.filterMap_cons_some (startTag?_field f),
    List.filterMap_append, startTags_textParts fun _ => rfl, stop]
  rfl

theorem startTags_flatMap_fieldParts (fs : List Field) :
    (fs.flatMap fieldParts).filterMap startTag? = fs.map ofField := by
  induction fs with
  | nil => rfl
  | cons f fs ih =>
      rw [List.flatMap_cons, List.filterMap_append, ih, startTags_fieldParts]
      rfl

theorem startTags_bucketParts (tags : Option (List Text)) :
    (bucketParts tags).filterMap startTag? = [] := by
  cases tags with
  | none => rfl
  | some tags =>
      rw [bucketParts, startTags_elementParts fun _ => rfl, startTags_textParts fun _ => rfl]

/-! ### Main statement -/

/-- **Names as attributes.**  The start tags that are read are those of the fields that are shown.
A double quote in the name of a field ends the attribute: the name that is read is that of the
field, and nothing else is in its tag, if and only if there is none. -/
theorem startTags_encode (flags : Flags) (e : Event) :
    startTags (Encoder.xml.encode flags e) = (e.shownFields flags).map ofField ∧
      ∀ f : Field, ((ofField f).name = f.label ↔ '"' ∉ f.label) ∧
        ((ofField f).rest = ['>'] ↔ '"' ∉ f.label) := by
  have element : ∀ t, startTag? ("event".toList ++ t) = none := fun _ => rfl
  refine ⟨?_, ofField_eq_iff⟩
  show startTags (Layout.xmlElement.render flags e) = _
  rw [startTags, pieces_render, List.filterMap_cons_none rfl, eventParts,
    startTags_elementParts element, List.filterMap_append, startTags_bucketParts,
    startTags_flatMap_fieldParts, List.nil_append]

/-- The rest of a name behind a double quote is not part of the attribute. -/
theorem startTag_of_quote_in_name :
    let e : Event := ⟨none, [.single "a\"b" (.string "1")]⟩
    let written := Encoder.xml.encode ⟨false, false⟩ e
    written = "<event><Field name =\"a\"b\"><value>1</value></Field></event>".toList ∧
      startTags written = [⟨"a", "b\">"⟩] ∧
      (startTags written).map StartTag.name ≠ e.fields.map Field.label := by
  decide +kernel

end EventLog.Markup
