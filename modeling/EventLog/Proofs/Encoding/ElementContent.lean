import EventLog.Proofs.Encoding.Element

/-!
# What an element says of an event

The parts of an event's element, its tags with the text behind each, are read from the back: texts
are gathered until the start tag of the field or of the bucket is found that they belong to
(`Reading.before`).

* `content_encode`: what is read is what the element shows of its event, the tags, if there is a
  bucket, and the fields as names with texts.  The names are read from a whole part, up to the mark
  that ends it, and not from the attribute, which may end earlier.
* `encode_xml_eq_iff`: so events have the same element if and only if they have the same tags,
  names and texts.
-/

namespace EventLog.Markup

/-- What an element shows of an event. -/
structure Content where
  tags : Option (List Text)
  /-- The fields, as names with texts. -/
  fields : List (Text × List Text)
deriving DecidableEq

namespace Content

/-- There is nothing to show. -/
def empty : Content := ⟨none, []⟩

/-- What the element of an event shows. -/
def ofEvent (flags : Flags) (e : Event) : Content :=
  ⟨e.tags, (e.shownFields flags).map fun f => (f.label, f.texts)⟩

end Content

/-! ### Reading parts -/

/-- The text in an element of a tag or of a value, if a part begins one. -/
def text? (part : Text) : Option Text :=
  (("tag>".toList.isPrefixOf? part).orElse fun _ => "value>".toList.isPrefixOf? part).map resolve

/-- The name of a field, if a part is its start tag: all that stands in front of the last two
characters, the double quote and the end of the tag. -/
def label? (part : Text) : Option Text :=
  (fieldStart.isPrefixOf? part).map fun t => resolve t.dropLast.dropLast

/-- The start tag of a bucket. -/
def bucketStart : Text := "event.tags>"

/-- What the parts at the end of an element say: the content they have begun, and the texts in
front of it. -/
structure Reading where
  texts : List Text
  content : Content

namespace Reading

/-- Nothing is left to read. -/
def start : Reading := ⟨[], .empty⟩

/-- One part more, in front of the others. -/
def before (part : Text) (r : Reading) : Reading :=
  match text? part, label? part with
  | some t, _         => { r with texts := t :: r.texts }
  | none, some name   => ⟨[], { r.content with fields := (name, r.texts) :: r.content.fields }⟩
  | none, none        =>
    if part = bucketStart then ⟨[], { r.content with tags := some r.texts }⟩ else r

end Reading

open Reading

/-- The content of an element. -/
def content (t : Text) : Content := ((pieces isLessThan t).foldr before .start).content

/-! ### The parts of an event -/

theorem foldr_textParts {name : Text}
    (starts : ∀ t, text? (name ++ ['>'] ++ Escape.markup t) = some t)
    (stops : ∀ r, before (['/'] ++ name ++ ['>']) r = r) (ts : List Text) (r : Reading) :
    (textParts name ts).foldr before r = { r with texts := ts ++ r.texts } := by
  induction ts with
  | nil => rfl
  | cons t ts ih =>
      have first (r : Reading) :
          before (name ++ ['>'] ++ Escape.markup t) r = { r with texts := t :: r.texts } := by
        rw [before, starts]
      rw [textParts, List.flatMap_cons, ← textParts, List.foldr_append, ih, elementParts,
        List.cons_append, List.nil_append, List.foldr_cons, List.foldr_cons, List.foldr_nil, stops,
        first]
      rfl

theorem text?_tag (t : Text) : text? ("tag".toList ++ ['>'] ++ Escape.markup t) = some t :=
  congrArg some (resolve_markup t)

theorem text?_value (t : Text) : text? ("value".toList ++ ['>'] ++ Escape.markup t) = some t :=
  congrArg some (resolve_markup t)

theorem label?_field (f : Field) :
    label? (fieldStart ++ Escape.markup f.label ++ "\">".toList) = some f.label := by
  have start (t : Text) : label? (fieldStart ++ t) = some (resolve t.dropLast.dropLast) := rfl
  have stop (t : Text) : (t ++ "\">".toList).dropLast.dropLast = t := by
    have ends : t ++ "\">".toList = t ++ ['"'] ++ ['>'] := by simp
    rw [ends, List.dropLast_concat, List.dropLast_concat]
  rw [List.append_assoc, start, stop, resolve_markup]

theorem foldr_fieldParts (f : Field) (c : Content) :
    (fieldParts f).foldr before ⟨[], c⟩ =
      ⟨[], { c with fields := (f.label, f.texts) :: c.fields }⟩ := by
  have stop (r : Reading) : before "/Field>" r = r := rfl
  have start (r : Reading) : before (fieldStart ++ Escape.markup f.label ++ "\">".toList) r =
      ⟨[], { r.content with fields := (f.label, r.texts) :: r.content.fields }⟩ := by
    have none : text? (fieldStart ++ Escape.markup f.label ++ "\">".toList) = none := rfl
    rw [before, none, label?_field]
  rw [fieldParts, List.cons_append, List.foldr_cons, List.foldr_append, List.foldr_cons,
    List.foldr_nil, stop, foldr_textParts text?_value fun _ => rfl, start, List.append_nil]

theorem foldr_flatMap_fieldParts (fs : List Field) (c : Content) :
    (fs.flatMap fieldParts).foldr before ⟨[], c⟩ =
      ⟨[], { c with fields := (fs.map fun f => (f.label, f.texts)) ++ c.fields }⟩ := by
  induction fs with
  | nil => rfl
  | cons f fs ih =>
      rw [List.flatMap_cons, List.foldr_append, ih, foldr_fieldParts]
      rfl

theorem foldr_bucketParts (tags : Option (List Text)) (fields : List (Text × List Text)) :
    (bucketParts tags).foldr before ⟨[], none, fields⟩ = ⟨[], tags, fields⟩ := by
  cases tags with
  | none => rfl
  | some tags =>
      have stop (r : Reading) : before (['/'] ++ Event.tagsName ++ ['>']) r = r := rfl
      have start (r : Reading) : before (Event.tagsName ++ ['>'] ++ []) r =
          ⟨[], { r.content with tags := some r.texts }⟩ := rfl
      rw [bucketParts, elementParts, List.cons_append, List.foldr_cons, List.foldr_append,
        List.foldr_cons, List.foldr_nil, stop, foldr_textParts text?_tag fun _ => rfl, start,
        List.append_nil]

theorem content_encode (flags : Flags) (e : Event) :
    content (Encoder.xml.encode flags e) = .ofEvent flags e := by
  have inert (r : Reading) :
      before [] r = r ∧ before ("event".toList ++ ['>'] ++ []) r = r ∧
        before (['/'] ++ "event".toList ++ ['>']) r = r := ⟨rfl, rfl, rfl⟩
  show content (Layout.xmlElement.render flags e) = _
  rw [content, pieces_render, List.foldr_cons, (inert _).1, eventParts, elementParts,
    List.cons_append, List.foldr_cons, (inert _).2.1, List.foldr_append, List.foldr_cons,
    List.foldr_nil, (inert _).2.2, start, Content.empty, List.foldr_append,
    foldr_flatMap_fieldParts, foldr_bucketParts, List.append_nil]
  rfl

/-! ### Main statement -/

/-- Nothing else than what is shown goes into an element. -/
theorem encode_of_content {flags flags' : Flags} {e e' : Event}
    (h : Content.ofEvent flags e = .ofEvent flags' e') :
    Encoder.xml.encode flags e = Encoder.xml.encode flags' e' := by
  obtain ⟨tags, fields⟩ := Content.mk.inj h
  have parts (fs : List Field) : fs.flatMap fieldParts =
      (fs.map fun f => (f.label, f.texts)).flatMap fun shown =>
        fieldParts ⟨some shown.1, shown.2.map .string⟩ := by
    rw [List.flatMap_map]
    exact congrArg fs.flatMap (funext fun f => by simp [fieldParts, Field.label])
  show Layout.xmlElement.render flags e = Layout.xmlElement.render flags' e'
  rw [render_eq, render_eq, eventParts, eventParts, tags, parts, fields, ← parts]

/-- **An element determines the content of its event.**  Outside of ultra-compact mode, events have
the same element if and only if both have the same bucket of tags, or none, and the same names with
the same texts. -/
theorem encode_xml_eq_iff (flat flat' : Bool) (e e' : Event) :
    Encoder.xml.encode ⟨false, flat⟩ e = Encoder.xml.encode ⟨false, flat'⟩ e' ↔
      e.tags = e'.tags ∧
        (e.fields.map fun f => (f.label, f.texts)) = e'.fields.map fun f => (f.label, f.texts) := by
  constructor
  · intro h
    have same : content (Encoder.xml.encode ⟨false, flat⟩ e) =
        content (Encoder.xml.encode ⟨false, flat'⟩ e') := congrArg content h
    rw [content_encode, content_encode] at same
    exact Content.mk.inj same
  · rintro ⟨tags, fields⟩
    have same : Content.ofEvent ⟨false, flat⟩ e = .ofEvent ⟨false, flat'⟩ e' :=
      (Content.mk.injEq ..).mpr ⟨tags, fields⟩
    exact encode_of_content same

/-- No value, an empty one and two of them are told apart. -/
example : ([[], [[]], [[], []]].map fun ts =>
    Encoder.xml.encode .none ⟨none, [⟨some "a", ts.map .string⟩]⟩).Nodup := by
  decide +kernel

end EventLog.Markup
