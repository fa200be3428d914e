import EventLog.Decoder.JsonLine
import EventLog.Proofs.Json.Encoding
import EventLog.Proofs.Json.Merge

/-!
# Reading encoded events back

The decoder of JSON lines is run on what the encoder wrote.

* `event_encode`: what it gives, for any event of which no field has the name of the tags.
* `round_trip`: if the names are pairwise different, it gives the event back, up to what JSON does
  not tell: the types of values, a bucket without tags, a field without values.
-/

namespace EventLog

theorem Event.foldl_addTag (ts : List Text) :
    ∀ e : Event, ts.foldl addTag e =
      if ts = [] then e else { e with tags := some (e.tags.getD [] ++ ts) } := by
  induction ts with
  | nil => exact fun _ => rfl
  | cons t ts ih =>
      intro e
      rw [List.foldl_cons, ih]
      by_cases hts : ts = []
      · simp [hts, addTag]
      · simp [hts, addTag]

namespace JsonLine

/-! ### Values that become one field -/

/-- A value that is no object and has no more items than a field can have values. -/
def Leaf : Json → Prop
  | .object _    => False
  | .array items => items.length ≤ Field.maxValues
  | _            => True

/-- The field of a member that is a leaf. -/
def leafField (m : Text × Json) : Field :=
  match m with
  | (name, .array items) => ⟨some name, (items.map scalarText).map .string⟩
  | (name, v)            => .single name (.string (scalarText v))

@[simp] theorem map_scalarText_string (ts : List Text) :
    (ts.map Json.string).map scalarText = ts := by
  rw [List.map_map]
  exact List.map_id ts

@[simp] theorem label_leafField (m : Text × Json) : (leafField m).label = m.1 := by
  obtain ⟨name, v⟩ := m
  cases v <;> rfl

theorem fieldsOf_leaf {name : Text} {v : Json} (h : Leaf v) :
    fieldsOf name v = .ok [leafField (name, v)] := by
  cases v with
  | object members => cases h
  | array items =>
      have room : (Field.named name).values.length ≤ Field.maxValues := Nat.zero_le _
      have added : (Field.named name).addTexts (items.map scalarText) = .ok _ :=
        (Field.addTexts_eq_ok_iff room).mpr ⟨by simpa [Field.named, Leaf] using h, rfl⟩
      rw [fieldsOf, added]
      rfl
  | null | bool _ | number _ | string _ => rfl

/-- Members that are leaves become a field each. -/
theorem addMembers_leaves {ms : List (Text × Json)} :
    ∀ {e : Event}, (∀ m ∈ ms, m.1 ≠ Event.tagsName ∧ Leaf m.2) →
      addMembers e ms = .ok { e with fields := e.fields ++ ms.map leafField } := by
  induction ms with
  | nil =>
      intro e _
      simp [addMembers, pure, Except.pure]
  | cons m ms ih =>
      intro e h
      obtain ⟨name, v⟩ := m
      obtain ⟨⟨hname, hleaf⟩, others⟩ := List.forall_mem_cons.mp h
      have first : addMember e name v =
          .ok { e with fields := e.fields ++ [leafField (name, v)] } := by
        unfold addMember
        rw [if_neg hname, fieldsOf_leaf hleaf]
        rfl
      rw [addMembers, first]
      refine (ih others).trans ?_
      simp

end JsonLine

namespace Layout

open JsonLine

/-! ### What comes back -/

/-- The tags that come back: those that are written, if there are any. -/
def returnedTags (flags : Flags) (e : Event) : Option (List Text) :=
  (e.tags.filter fun _ => flags.includeFlatTags).filter fun tags => tags ≠ []

/-- The event that comes back.  Of fields of one name the first gives the place and the last the
values. -/
def returned (flags : Flags) (e : Event) : Event :=
  ⟨returnedTags flags e, (Json.merge (fieldMembers flags e)).map leafField⟩

/-- A field as it comes back: with its texts, or an empty one. -/
def echo (f : Field) : Field :=
  ⟨some f.label, (if f.values = [] then [[]] else f.texts).map .string⟩

@[simp] theorem echo_values_ne_nil (f : Field) : (echo f).values ≠ [] := by
  by_cases hf : f.values = [] <;> simp [echo, hf, Field.texts]

theorem leaf_valueOf {ts : List Text} (h : ts.length ≤ Field.maxValues) : Leaf (valueOf ts) := by
  match ts, h with
  | [], _          => trivial
  | [t], _         => trivial
  | t :: u :: w, h => simpa [valueOf, Leaf] using h

theorem leafField_fieldMember (f : Field) : leafField (fieldMember f) = echo f := by
  obtain ⟨name, values⟩ := f
  match values with
  | []          => rfl
  | [v]         => rfl
  | v :: w :: u =>
      simp [leafField, fieldMember, valueOf, echo, Field.texts, scalarText, Function.comp_def,
        Field.label]

theorem distinct_array (ts : List Text) :
    (Json.array (ts.map .string)).distinct = .array (ts.map .string) := by
  rw [Json.distinct, Json.distinctItems_eq_map, List.map_map]
  rfl

/-- Below the top, nothing that is written has to be merged. -/
theorem distinctMembers_members (flags : Flags) (e : Event) :
    Json.distinctMembers (members flags e) = members flags e := by
  rw [Json.distinctMembers_eq_map]
  have same : ∀ m ∈ members flags e, (m.1, m.2.distinct) = m := by
    refine forall_mem_members ?_ ?_ flags e
    · exact fun tags => congrArg (Prod.mk _) (distinct_array tags)
    · intro f
      refine congrArg (Prod.mk _) ?_
      exact valueOf_cases (P := fun v => v.distinct = v) (fun _ => rfl) distinct_array f.texts
  exact (List.map_congr_left same).trans (List.map_id' _)

theorem map_fst_fieldMembers (flags : Flags) (e : Event) :
    (fieldMembers flags e).map Prod.fst = (e.shownFields flags).map Field.label := by
  rw [fieldMembers, List.map_map]
  rfl

/-- The members of which fields are made when an event comes back. -/
theorem leaf_of_mem_merge (flags : Flags) {e : Event}
    (hroom : ∀ f ∈ e.fields, f.values.length ≤ Field.maxValues)
    (htags : ∀ f ∈ e.fields, f.label ≠ Event.tagsName) :
    ∀ m ∈ Json.merge (fieldMembers flags e), m.1 ≠ Event.tagsName ∧ Leaf m.2 := by
  intro m hm
  obtain ⟨f, hf, rfl⟩ := List.mem_map.mp (Json.merge_subset _ m hm)
  have hf : f ∈ e.fields := (Event.shownFields_sublist _ _).subset hf
  exact ⟨htags f hf, leaf_valueOf (by simpa [Field.texts] using hroom f hf)⟩

/-- **An encoded event is decoded**, unless one of its fields has the name of the tags. -/
theorem event_encode (flags : Flags) {e : Event}
    (hroom : ∀ f ∈ e.fields, f.values.length ≤ Field.maxValues)
    (htags : ∀ f ∈ e.fields, f.label ≠ Event.tagsName) :
    JsonLine.event (Encoder.json.encode flags e) = .ok (returned flags e) := by
  have leaves := leaf_of_mem_merge flags hroom htags
  -- No field has the name of the tags, so that merging leaves them in front.
  have new : Event.tagsName ∉ (fieldMembers flags e).map Prod.fst := by
    rw [map_fst_fieldMembers]
    intro h
    obtain ⟨f, hf, hname⟩ := List.mem_map.mp h
    exact htags f ((Event.shownFields_sublist _ _).subset hf) hname
  have merged : JsonLine.event (Encoder.json.encode flags e) =
      addMembers .empty (Json.merge (members flags e)) := by
    simp only [JsonLine.event, read_encode, Json.distinct, distinctMembers_members]
    rfl
  rw [merged, members, tagsMember, returned, returnedTags]
  cases e.tags.filter fun _ => flags.includeFlatTags with
  | none => exact addMembers_leaves leaves
  | some tags =>
      have first : addMember .empty Event.tagsName (.array (tags.map .string)) =
          .ok (tags.foldl Event.addTag .empty) := by
        unfold addMember
        rw [if_pos rfl]
        simp only [map_scalarText_string]
        rfl
      rw [Option.map_some, Option.toList_some, List.singleton_append,
        Json.merge_cons_of_notMem new, addMembers, first]
      refine (addMembers_leaves leaves).trans ?_
      rw [Event.foldl_addTag]
      by_cases htags : tags = []
      · simp [htags, Event.empty, Option.filter]
      · simp [htags, Event.empty, Option.filter]

/-- Without repeated names, every field that is written comes back. -/
theorem returned_of_nodup (flags : Flags) {e : Event}
    (hn : ((e.shownFields flags).map Field.label).Nodup) :
    returned flags e = ⟨returnedTags flags e, (e.shownFields flags).map echo⟩ := by
  rw [returned, Json.merge_of_nodup (map_fst_fieldMembers flags e ▸ hn), fieldMembers,
    List.map_map]
  exact congrArg (Event.mk _) (List.map_congr_left fun f _ => leafField_fieldMember f)

theorem some_label {f : Field} (h : f.name ≠ none) : some f.label = f.name := by
  obtain ⟨name, hname⟩ := Option.ne_none_iff_exists'.mp h
  rw [Field.label, hname, Option.getD_some]

theorem label_ne_tagsName {f : Field} (h : f.name ≠ some Event.tagsName) :
    f.label ≠ Event.tagsName := by
  cases hn : f.name with
  | none =>
      have unnamed : f.label = [] := by rw [Field.label, hn, Option.getD_none]
      rw [unnamed]
      decide
  | some name =>
      intro heq
      exact h (by rw [← heq, Field.label, hn, Option.getD_some])

theorem getD_returnedTags {flags : Flags} (hflat : flags.includeFlatTags = true) (e : Event) :
    (returnedTags flags e).getD [] = e.tags.getD [] := by
  cases ht : e.tags with
  | none => simp [returnedTags, ht]
  | some tags => cases tags <;> simp [returnedTags, ht, hflat, Option.filter]

/-! ### Main statements -/

/-- **Decoding undoes encoding**, for an event whose fields have names that JSON can tell apart and
no more values than `Field.add` lets in. -/
theorem round_trip {flags : Flags} {e : Event} (hflat : flags.includeFlatTags = true)
    (hnamed : ∀ f ∈ e.fields, f.name ≠ none)
    (htags : ∀ f ∈ e.fields, f.name ≠ some Event.tagsName)
    (hdistinct : (e.fields.map Field.name).Nodup)
    (hroom : ∀ f ∈ e.fields, f.values.length ≤ Field.maxValues) :
    ∃ e', JsonLine.event (Encoder.json.encode flags e) = .ok e' ∧
      e'.tags.getD [] = e.tags.getD [] ∧
      e'.fields =
        (if flags.ultraCompact then e.fields.filter fun f => f.values ≠ [] else e.fields).map
          fun f => ⟨f.name, (if f.values = [] then [[]] else f.values.map Value.text).map .string⟩ := by
  have labels : e.fields.map Field.name = (e.fields.map Field.label).map some := by
    rw [List.map_map]
    exact List.map_congr_left fun f hf => (some_label (hnamed f hf)).symm
  have nodup : (e.fields.map Field.label).Nodup := by
    rw [labels] at hdistinct
    exact List.Pairwise.of_map some (fun _ _ h hab => h (congrArg some hab)) hdistinct
  have kept := returned_of_nodup flags
    (((e.shownFields_sublist flags).map _).nodup nodup)
  have decoded := event_encode flags hroom fun f hf => label_ne_tagsName (htags f hf)
  rw [kept] at decoded
  refine ⟨_, decoded, getD_returnedTags hflat e, List.map_congr_left ?_⟩
  intro f hf
  rw [echo, some_label (hnamed f ((Event.shownFields_sublist _ _).subset hf))]
  rfl

theorem round_trip_two_fields :
    let flags : Flags := ⟨true, true⟩
    let e : Event :=
      ⟨some ["t", ""], [⟨some "a.\"b\"", [.number 1, .string "/\n"]⟩, ⟨some "", []⟩]⟩
    flags.includeFlatTags = true ∧ (∀ f ∈ e.fields, f.name ≠ none) ∧
      (∀ f ∈ e.fields, f.name ≠ some Event.tagsName) ∧ (e.fields.map Field.name).Nodup ∧
      (∀ f ∈ e.fields, f.values.length ≤ Field.maxValues) ∧
      ∃ e', JsonLine.event (Encoder.json.encode flags e) = .ok e' ∧
        e'.tags.getD [] = e.tags.getD [] ∧
        e'.fields = [⟨some "a.\"b\"", [.string "1", .string "/\n"]⟩] := by
  intro flags e
  have hflat : flags.includeFlatTags = true := rfl
  have hnamed : ∀ f ∈ e.fields, f.name ≠ none := by decide
  have htags : ∀ f ∈ e.fields, f.name ≠ some Event.tagsName := by decide
  have hdistinct : (e.fields.map Field.name).Nodup := by decide
  have hroom : ∀ f ∈ e.fields, f.values.length ≤ Field.maxValues := by decide
  obtain ⟨e', hevent, hts, hfs⟩ := round_trip hflat hnamed htags hdistinct hroom
  exact ⟨hflat, hnamed, htags, hdistinct, hroom, e', hevent, hts, hfs.trans (by decide)⟩

end Layout

end EventLog
