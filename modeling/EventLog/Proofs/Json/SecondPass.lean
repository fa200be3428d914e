import EventLog.Proofs.Json.Leaves

/-!
# Encoding a decoded line twice

A JSON line is decoded, encoded, and the text is decoded and encoded once more.  Nested objects are
flattened by the first decoding, so that members of different objects may have come to one name;
they are fields of their own, and are written as members of one object.  Reading merges these.

* `second_pass`: the second text is the first one if and only if the names that are written are
  pairwise different, and the third one is always the second.
-/

namespace EventLog

open JsonLine Layout

/-! ### What decoding gives -/

/-- No field has more values than there is room for, and a bucket of tags is not empty. -/
structure Event.Sound (e : Event) : Prop where
  tags_ne : e.tags ≠ some []
  room : ∀ f ∈ e.fields, f.values.length ≤ Field.maxValues

namespace JsonLine

/-- The field of a leaf without fault has no more values than there is room for. -/
theorem length_values_fieldAt_le {path : List Text} {v : Json} (h : fault? (path, v) = none) :
    (fieldAt (path, v)).values.length ≤ Field.maxValues := by
  cases v with
  | array items =>
      have few : ¬ Field.maxValues < items.length := fun full => by
        rw [fault?, if_pos full] at h
        cases h
      simpa [fieldAt, leafField] using few
  | object _ | null | bool _ | number _ | string _ =>
      simp [fieldAt, leafField, Field.single, Field.maxValues]

/-- Every event that is decoded from a line is sound. -/
theorem event_sound {line : Text} {e : Event} (h : event line = .ok e) : e.Sound := by
  obtain ⟨ms, hms⟩ := members?_of_event h
  rw [event_eq_eventOf hms, eventOf_object, verdict_eq_ok_iff] at h
  obtain ⟨sound, rfl⟩ := h
  constructor
  · show (if tagTexts ms = [] then none else some (tagTexts ms)) ≠ some []
    split <;> simp [*]
  · intro f hf
    obtain ⟨⟨path, v⟩, hl, rfl⟩ := List.mem_map.mp hf
    obtain ⟨m, hm, hname, hl⟩ := mem_leavesBelow_fieldMembers.mp hl
    have none : faultsOf m = [] := List.flatMap_eq_nil_iff.mp sound m hm
    rw [faultsOf, if_neg hname] at none
    exact length_values_fieldAt_le (List.filterMap_eq_nil_iff.mp none _ hl)

end JsonLine

namespace Layout

/-! ### What a second pass gives -/

theorem filter_returnedTags {e : Event} (ht : e.tags ≠ some []) (flags : Flags) :
    (returnedTags flags e).filter (fun _ => flags.includeFlatTags) =
      e.tags.filter fun _ => flags.includeFlatTags := by
  cases htags : e.tags with
  | none => simp [returnedTags, htags]
  | some tags =>
      have hne : tags ≠ [] := fun h => ht (by rw [htags, h])
      cases hflat : flags.includeFlatTags <;> simp [returnedTags, htags, hflat, hne, Option.filter]

/-- A field is written as it was when it came back. -/
theorem fieldEntry_echo (compact : Bool) (f : Field) :
    jsonObject.fieldEntry compact (echo f) = jsonObject.fieldEntry compact f := by
  have texts : jsonTexts (echo f).texts = jsonTexts f.texts := by
    rw [echo, Field.texts_map_string]
    by_cases hf : f.values = []
    · rw [if_pos hf, Field.texts, hf]
      rfl
    · rw [if_neg hf]
  show jsonString f.label ++ _ ++ jsonTexts (echo f).texts = _
  rw [texts]
  rfl

/-- All fields that came back have values, and so all are shown. -/
theorem shownFields_map_echo (flags : Flags) (tags : Option (List Text)) (fs : List Field) :
    Event.shownFields flags ⟨tags, fs.map echo⟩ = fs.map echo := by
  by_cases compact : flags.ultraCompact = true
  · rw [Event.shownFields, if_pos compact]
    refine List.filter_eq_self.mpr ?_
    intro f hf
    obtain ⟨f', -, rfl⟩ := List.mem_map.mp hf
    simp
  · rw [Event.shownFields, if_neg compact]

/-- An event without repeated names is written as it was when it came back. -/
theorem encode_echo (flags : Flags) {e : Event} (ht : e.tags ≠ some []) :
    Encoder.json.encode flags ⟨returnedTags flags e, (e.shownFields flags).map echo⟩ =
      Encoder.json.encode flags e := by
  have tags : (returnedTags flags e).filter (fun _ => jsonObject.wantsTags flags) =
      e.tags.filter fun _ => jsonObject.wantsTags flags := filter_returnedTags ht flags
  have fields : ((e.shownFields flags).map echo).map (jsonObject.fieldEntry flags.ultraCompact) =
      (e.shownFields flags).map (jsonObject.fieldEntry flags.ultraCompact) := by
    rw [List.map_map]
    exact List.map_congr_left fun f _ => fieldEntry_echo flags.ultraCompact f
  rw [Encoder.encode, Encoder.encode, render, render, entries, entries, keptFields_eq_shownFields,
    keptFields_eq_shownFields, shownFields_map_echo, tags, fields]

theorem room_leafField {m : Text × Json} (h : Leaf m.2) :
    (leafField m).values.length ≤ Field.maxValues := by
  obtain ⟨name, v⟩ := m
  cases v with
  | object members => cases h
  | array items => simpa [leafField, Leaf] using h
  | null | bool _ | number _ | string _ => simp [leafField, Field.single, Field.maxValues]

theorem returned_sound (flags : Flags) {e : Event} (hs : e.Sound)
    (htags : ∀ f ∈ e.fields, f.label ≠ Event.tagsName) : (returned flags e).Sound := by
  refine ⟨?_, ?_⟩
  · intro h
    have := (Option.filter_eq_some_iff.mp h).2
    simp at this
  · intro f hf
    obtain ⟨m, hm, rfl⟩ := List.mem_map.mp hf
    exact room_leafField (leaf_of_mem_merge flags hs.room htags m hm).2

theorem label_returned (flags : Flags) {e : Event} (hs : e.Sound)
    (htags : ∀ f ∈ e.fields, f.label ≠ Event.tagsName) :
    ∀ f ∈ (returned flags e).fields, f.label ≠ Event.tagsName := by
  intro f hf
  obtain ⟨m, hm, rfl⟩ := List.mem_map.mp hf
  rw [label_leafField]
  exact (leaf_of_mem_merge flags hs.room htags m hm).1

/-- The names of an event that came back are pairwise different. -/
theorem nodup_returned (flags : Flags) (e : Event) :
    (((returned flags e).shownFields flags).map Field.label).Nodup := by
  have all : ((returned flags e).fields.map Field.label).Nodup := by
    rw [returned, List.map_map]
    have labels : Field.label ∘ leafField = Prod.fst := funext label_leafField
    rw [labels]
    exact Json.nodup_merge _
  exact ((Event.shownFields_sublist _ _).map _).nodup all

/-! ### Main statement -/

/-- **A second pass changes nothing if and only if the names written are pairwise different**, and
a third pass changes nothing in any case. -/
theorem second_pass (flags : Flags) {line : Text} {e : Event} (h : JsonLine.event line = .ok e)
    (htags : ∀ f ∈ e.fields, f.name ≠ some Event.tagsName) :
    ∃ e', JsonLine.event (Encoder.json.encode flags e) = .ok e' ∧
      (Encoder.json.encode flags e' = Encoder.json.encode flags e ↔
        ((e.shownFields flags).map Field.label).Nodup) ∧
      ∃ e'', JsonLine.event (Encoder.json.encode flags e') = .ok e'' ∧
        Encoder.json.encode flags e'' = Encoder.json.encode flags e' := by
  have hs := JsonLine.event_sound h
  have hl : ∀ f ∈ e.fields, f.label ≠ Event.tagsName := fun f hf => label_ne_tagsName (htags f hf)
  have hs' := returned_sound flags hs hl
  have hn' := nodup_returned flags e
  refine ⟨returned flags e, event_encode flags hs.room hl, ⟨?_, ?_⟩, ?_⟩
  · -- Equal texts are read as equal members, and the returned event has every name once.
    intro heq
    have objects := read_encode flags (returned flags e)
    rw [heq, read_encode, Option.some.injEq, Json.object.injEq] at objects
    have tags : tagsMember flags (returned flags e) = tagsMember flags e := by
      rw [tagsMember, tagsMember, returned, filter_returnedTags hs.tags_ne]
    have fields : fieldMembers flags e = fieldMembers flags (returned flags e) := by
      rw [members, members, tags] at objects
      exact List.append_cancel_left objects
    rw [← map_fst_fieldMembers, fields, map_fst_fieldMembers]
    exact hn'
  · intro hn
    rw [returned_of_nodup flags hn]
    exact encode_echo flags hs.tags_ne
  · refine ⟨_, event_encode flags hs'.room (label_returned flags hs hl), ?_⟩
    rw [returned_of_nodup flags hn']
    exact encode_echo flags hs'.tags_ne

theorem second_pass_distinct :
    let flags : Flags := ⟨false, true⟩
    let line : Text := "\x7b\"a\":\x7b\"b\":1\x7d,\"event.tags\":[\"t\"],\"c\":[null,true]\x7d"
    let e : Event :=
      ⟨some ["t"], [.single "a.b" (.string "1"), ⟨some "c", [.string "-", .string "true"]⟩]⟩
    JsonLine.event line = .ok e ∧ (∀ f ∈ e.fields, f.name ≠ some Event.tagsName) ∧
      ∃ e', JsonLine.event (Encoder.json.encode flags e) = .ok e' ∧
        Encoder.json.encode flags e' = Encoder.json.encode flags e := by
  intro flags line e
  have h : JsonLine.event line = .ok e := toOption_eq_some_iff.mp (by decide +kernel)
  have htags : ∀ f ∈ e.fields, f.name ≠ some Event.tagsName := by decide
  obtain ⟨e', hevent, hiff, -⟩ := second_pass flags h htags
  exact ⟨h, htags, e', hevent, hiff.mpr (by decide)⟩

/-- Two members that come to one name are both in the first text, and one of them in the second. -/
theorem second_pass_merges :
    let line : Text := "\x7b\"a\":\x7b\"b\":1\x7d,\"a.b\":2\x7d"
    let e : Event := ⟨none, [.single "a.b" (.string "1"), .single "a.b" (.string "2")]⟩
    let e' : Event := ⟨none, [.single "a.b" (.string "2")]⟩
    (JsonLine.event line).toOption = some e ∧ (∀ f ∈ e.fields, f.name ≠ some Event.tagsName) ∧
      (JsonLine.event (Encoder.json.encode .none e)).toOption = some e' ∧
      Encoder.json.encode .none e' ≠ Encoder.json.encode .none e := by
  decide +kernel

end Layout

end EventLog
