import EventLog.Proofs.Encoding.Shown
import EventLog.Proofs.Json.Encoding

/-!
# Ultra-compact mode

In ultra-compact mode an event is written as if it had no fields without values
(`keptFields_withValues`), and JSON is written without blanks.  The blanks are the spaces that stand
outside of strings (`unspaced`): a string begins and ends with a double quote, and inside of it a
backslash takes the character behind it with it.

* `encode_ultraCompact`: the mode changes nothing else, and which flags a format does not look at.
-/

namespace EventLog

namespace Layout

open Json.Grammar

/-! ### Spaces outside of strings -/

/-- Where a character of JSON stands. -/
inductive Place where
  | outside
  | inside
  /-- Inside a string, behind a backslash. -/
  | escaped
deriving DecidableEq

/-- Where the next character stands. -/
def Place.after : Place → Char → Place
  | outside, '"'  => inside
  | inside, '"'   => outside
  | inside, '\\'  => escaped
  | escaped, _    => inside
  | p, _          => p

/-- A text without the spaces that stand outside of strings, read from a place on. -/
def unspacedFrom : Place → Text → Text
  | _, []     => []
  | p, c :: t =>
    if p = .outside ∧ c = ' ' then unspacedFrom p t else c :: unspacedFrom (p.after c) t

/-- A text without the spaces that stand outside of strings. -/
def unspaced (t : Text) : Text := unspacedFrom .outside t

theorem unspacedFrom_append (p : Place) (t u : Text) :
    unspacedFrom p (t ++ u) = unspacedFrom p t ++ unspacedFrom (t.foldl Place.after p) u := by
  induction t generalizing p with
  | nil => rfl
  | cons c t ih =>
      rw [List.cons_append, unspacedFrom, unspacedFrom, ih, ih, List.foldl_cons]
      split
      · next h =>
          obtain ⟨rfl, rfl⟩ := h
          rfl
      · rfl

/-- A text that leads from one place to another, and what is left of it without its spaces. -/
structure Trims (p q : Place) (t t' : Text) : Prop where
  unspacedFrom_eq : unspacedFrom p t = t'
  foldl_eq : t.foldl Place.after p = q

namespace Trims

variable {p q r : Place} {t t' u u' : Text}

theorem nil : Trims p p [] [] := ⟨rfl, rfl⟩

theorem append (h : Trims p q t t') (h' : Trims q r u u') : Trims p r (t ++ u) (t' ++ u') := by
  obtain ⟨rfl, rfl⟩ := h
  obtain ⟨rfl, rfl⟩ := h'
  exact ⟨unspacedFrom_append p t u, List.foldl_append⟩

theorem intercalate {sep sep' : Text} (hsep : Trims p p sep sep') {ts ts' : List Text}
    (h : List.Forall₂ (Trims p p) ts ts') :
    Trims p p (sep.intercalate ts) (sep'.intercalate ts') := by
  induction h with
  | nil => exact nil
  | cons first further ih =>
      cases further with
      | nil => simpa using first
      | cons second further =>
          rw [List.intercalate_cons_cons, List.intercalate_cons_cons]
          exact (first.append hsep).append ih

/-- A character of a string that is written as it is. -/
theorem unescaped {c : Char} (quote : c ≠ '"') (backslash : c ≠ '\\') :
    Trims .inside .inside [c] [c] := by
  have same : Place.inside.after c = .inside := by
    unfold Place.after
    split <;> simp_all
  exact ⟨by simp [unspacedFrom], same⟩

/-- A character behind a backslash. -/
theorem escaped (c : Char) : Trims .inside .inside ['\\', c] ['\\', c] := ⟨rfl, rfl⟩

/-- The characters of a string are left as they are, spaces among them. -/
theorem content {s : Text} (h : Content t s) : Trims .inside .inside t t := by
  refine h.made (P := fun t => Trims .inside .inside t t) (fun c u quote backslash ih => ?_)
    (fun c u ih => ?_) nil
  · exact (unescaped quote backslash).append ih
  · exact (escaped c).append ih

theorem quoted {s : Text} (h : Quoted t s) : Trims .outside .outside t t := by
  obtain ⟨h⟩ := h
  have opening : Trims .outside .inside ['"'] ['"'] := ⟨rfl, rfl⟩
  have closing : Trims .inside .outside ['"'] ['"'] := ⟨rfl, rfl⟩
  exact (opening.append (content h)).append closing

end Trims

/-! ### JSON without spaces -/

theorem trims_jsonString (t : Text) : Trims .outside .outside (jsonString t) (jsonString t) :=
  .quoted (quoted_jsonString t)

theorem trims_jsonArray (ts : List Text) :
    Trims .outside .outside (jsonArray ts) (jsonArray ts) := by
  have opening : Trims .outside .outside ['['] ['['] := ⟨rfl, rfl⟩
  have comma : Trims .outside .outside [','] [','] := ⟨rfl, rfl⟩
  have closing : Trims .outside .outside [']'] [']'] := ⟨rfl, rfl⟩
  have strings : List.Forall₂ (Trims .outside .outside) (ts.map jsonString)
      (ts.map jsonString) := by
    rw [List.forall₂_map_left_iff, List.forall₂_map_right_iff, List.forall₂_same]
    exact fun t _ => trims_jsonString t
  exact (opening.append (comma.intercalate strings)).append closing

theorem trims_jsonTexts (ts : List Text) :
    Trims .outside .outside (jsonTexts ts) (jsonTexts ts) := by
  match ts with
  | []          => exact trims_jsonString []
  | [t]         => exact trims_jsonString t
  | t :: u :: w => exact trims_jsonArray (t :: u :: w)

/-- Without its space a member is that of ultra-compact mode. -/
theorem trims_fieldEntry (f : Field) :
    Trims .outside .outside (jsonObject.fieldEntry false f) (jsonObject.fieldEntry true f) := by
  have colon : Trims .outside .outside (jsonColon false) (jsonColon true) := ⟨rfl, rfl⟩
  exact ((trims_jsonString f.label).append colon).append (trims_jsonTexts f.texts)

theorem trims_tagsEntry (tags : List Text) :
    Trims .outside .outside (jsonObject.tagsEntry tags) (jsonObject.tagsEntry tags) := by
  have colon : Trims .outside .outside (jsonColon true) (jsonColon true) := ⟨rfl, rfl⟩
  exact ((trims_jsonString Event.tagsName).append colon).append (trims_jsonArray tags)

/-! ### Fields without values -/

/-- In ultra-compact mode the fields are kept that every mode keeps if the others are missing. -/
theorem keptFields_withValues (compact : Bool) (e : Event) :
    keptFields compact e.withValues.fields = keptFields true e.fields := by
  cases compact with
  | true => simp [keptFields, Event.withValues]
  | false => rfl

variable (flags : Flags) (e : Event)

/-- A layout that does not look at the mode writes what is left without the empty fields. -/
theorem render_withValues {l : Layout} (arrange : l.arrange true = l.arrange false)
    (wantsTags : l.wantsTags { flags with ultraCompact := true } =
      l.wantsTags { flags with ultraCompact := false })
    (fieldEntry : l.fieldEntry true = l.fieldEntry false) :
    l.render { flags with ultraCompact := true } e =
      l.render { flags with ultraCompact := false } e.withValues := by
  simp only [render, entries, keptFields_withValues, arrange, wantsTags, fieldEntry]
  rfl

theorem trims_entries :
    List.Forall₂ (Trims .outside .outside)
      (jsonObject.entries { flags with ultraCompact := false } e.withValues)
      (jsonObject.entries { flags with ultraCompact := true } e) := by
  rw [entries, entries, keptFields_withValues]
  refine List.rel_append ?tags ?fields
  case tags =>
    change List.Forall₂ _ ((e.tags.filter fun _ => flags.includeFlatTags).map _).toList
      ((e.tags.filter fun _ => flags.includeFlatTags).map _).toList
    cases e.tags.filter fun _ => flags.includeFlatTags with
    | none => exact .nil
    | some tags => exact .cons (trims_tagsEntry tags) .nil
  case fields =>
    rw [List.forall₂_map_left_iff, List.forall₂_map_right_iff, List.forall₂_same]
    exact fun f _ => trims_fieldEntry f

/-- JSON of the fields with values, without its spaces, is that of ultra-compact mode. -/
theorem unspaced_encode_json :
    unspaced (Encoder.json.encode { flags with ultraCompact := false } e.withValues) =
      Encoder.json.encode { flags with ultraCompact := true } e := by
  have opening : Trims .outside .outside jsonObject.opening jsonObject.opening := ⟨rfl, rfl⟩
  have comma : Trims .outside .outside (jsonComma false) (jsonComma true) := ⟨rfl, rfl⟩
  have closing : Trims .outside .outside jsonObject.closing jsonObject.closing := ⟨rfl, rfl⟩
  have object := (opening.append (comma.intercalate (trims_entries flags e))).append closing
  exact object.unspacedFrom_eq

/-! ### Main statement -/

/-- **Ultra-compact mode leaves out fields without values, and the spaces of JSON outside of
strings.**  A table does not look at any flag, and structured data and XML do not look at the one
for the tags. -/
theorem encode_ultraCompact :
    let compact : Flags := { flags with ultraCompact := true }
    let plain : Flags := { flags with ultraCompact := false }
    Encoder.syslog.encode compact e = Encoder.syslog.encode plain e.withValues ∧
      Encoder.xml.encode compact e = Encoder.xml.encode plain e.withValues ∧
      Encoder.json.encode compact e = unspaced (Encoder.json.encode plain e.withValues) ∧
      (∀ columns flags', (Encoder.csv columns).encode flags' e =
        (Encoder.csv columns).encode flags e) ∧
      ∀ flat, let other : Flags := { flags with includeFlatTags := flat }
        Encoder.syslog.encode other e = Encoder.syslog.encode flags e ∧
          Encoder.xml.encode other e = Encoder.xml.encode flags e :=
  ⟨render_withValues flags e rfl rfl rfl, render_withValues flags e rfl rfl rfl,
    (unspaced_encode_json flags e).symm, fun _ _ => rfl, fun _ => ⟨rfl, rfl⟩⟩

example :
    let e : Event := ⟨none, [⟨some "a", []⟩, .single "b" (.string "x \" y"), ⟨some "c d", []⟩]⟩
    Encoder.json.encode ⟨true, false⟩ e = "\x7b\"b\":\"x \\\" y\"\x7d" := by
  decide

end Layout

end EventLog
