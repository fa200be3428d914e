import EventLog.Proofs.Json.Leaves

/-!
# The name of the tags

The name `event.tags` is kept from the fields of a JSON line by a test of the members at the top.  A
path of two members has it as well.

* `tagsName_field_iff`: a line gives a field `event.tags` if and only if it has a leaf `tags` in an
  object `event` at the top.  By any other name the first field is found, whatever the nesting; by
  this name none ever is.
-/

namespace EventLog

namespace JsonLine

/-! ### Paths -/

/-- A leaf one member down. -/
theorem singleton_mem_leaves {v w : Json} {k : Text} :
    ([k], w) ∈ leaves v ↔ ∃ ms, v = .object ms ∧ (k, w) ∈ ms ∧ ∀ ns, w ≠ .object ns := by
  cases v with
  | object ms =>
      rw [leaves, mem_leavesBelow]
      constructor
      · rintro ⟨k', v', below, hm, heq, hw⟩
        cases heq
        obtain ⟨rfl, hleaf⟩ := nil_mem_leaves.mp hw
        exact ⟨ms, rfl, hm, hleaf⟩
      · rintro ⟨ms', heq, hm, hleaf⟩
        cases heq
        exact ⟨k, w, [], hm, rfl, nil_mem_leaves.mpr ⟨rfl, hleaf⟩⟩
  | null | bool _ | number _ | string _ | array _ => simp [leaves]

theorem tagsName_eq_append : Event.tagsName = "event".toList ++ '.' :: "tags".toList := by decide

/-- Two paths are written as the name of the tags. -/
theorem dotted_eq_tagsName {path : List Text} :
    dotted path = Event.tagsName ↔
      path = [Event.tagsName] ∨ path = ["event".toList, "tags".toList] := by
  match path with
  | [] => exact iff_of_false (by decide) (by decide)
  | [k] =>
      rw [dotted_singleton]
      simp
  | a :: b :: rest =>
      -- The name has one point, and so it parts in one way.
      have parts : dotted (a :: b :: rest) = Event.tagsName ↔
          "event".toList = a ∧ '.' = '.' ∧ "tags".toList = dotted (b :: rest) := by
        rw [dotted_cons_cons, List.append_assoc, tagsName_eq_append, eq_comm]
        exact List.append_cons_inj_of_notMem (by decide) (by decide)
      rw [parts]
      match rest with
      | [] =>
          rw [dotted_singleton]
          simp [eq_comm]
      | c :: rest =>
          have point : '.' ∈ dotted (b :: c :: rest) := by simp [dotted_cons_cons]
          refine iff_of_false (fun h => ?_) (by simp)
          rw [← h.2.2] at point
          exact absurd point (by decide)

/-! ### Main statement -/

/-- A leaf `tags` stands in an object `event` at the top. -/
def HasNestedTags (line : Text) : Prop :=
  ∃ ms inner v, members? line = some ms ∧ ("event".toList, .object inner) ∈ ms ∧
    ("tags".toList, v) ∈ inner ∧ ∀ ns, v ≠ .object ns

/-- **A field has the name of the tags if and only if a leaf `tags` stands in an object `event` at
the top.**  The first field of any other name is what is found by this name; by the name of the
tags no field is. -/
theorem tagsName_field_iff {line : Text} {e : Event} (h : event line = .ok e) :
    ((∃ f ∈ e.fields, f.name = some Event.tagsName) ↔ HasNestedTags line) ∧
      (∀ (before after : List Field) f name, e.fields = before ++ f :: after →
        f.name = some name → (∀ g ∈ before, g.name ≠ some name) → name ≠ Event.tagsName →
          e.fieldText name = .ok (f.values.map Value.text).flatten) ∧
      ∀ fs, { e with fields := fs }.fieldText Event.tagsName = e.fieldText Event.tagsName := by
  obtain ⟨ms, hms, hfields⟩ := event_fields h
  refine ⟨⟨?_, ?_⟩, ?_, fun fs => ?_⟩
  · rintro ⟨f, hf, hname⟩
    rw [hfields] at hf
    obtain ⟨⟨path, w⟩, hl, rfl⟩ := List.mem_map.mp hf
    rw [fieldAt, name_leafField, Option.some.injEq, dotted_eq_tagsName] at hname
    obtain ⟨k, v, below, hm, rfl, hw⟩ := mem_leavesBelow.mp hl
    obtain ⟨hm, hk⟩ := List.mem_filter.mp hm
    rcases hname with hpath | hpath
    · -- The test at the top keeps this path out.
      cases hpath
      simp at hk
    · cases hpath
      obtain ⟨inner, rfl, hinner, hleaf⟩ := singleton_mem_leaves.mp hw
      exact ⟨ms, inner, w, hms, hm, hinner, hleaf⟩
  · rintro ⟨ms', inner, v, hms', hm, hinner, hleaf⟩
    obtain rfl := Option.some.inj (hms.symm.trans hms')
    have kept : ("event".toList, Json.object inner) ∈ fieldMembers ms :=
      List.mem_filter.mpr ⟨hm, decide_eq_true (by decide : "event".toList ≠ Event.tagsName)⟩
    have leaf : (["event".toList, "tags".toList], v) ∈ leavesBelow (fieldMembers ms) :=
      mem_leavesBelow.mpr ⟨_, _, _, kept, rfl, singleton_mem_leaves.mpr ⟨inner, rfl, hinner, hleaf⟩⟩
    refine ⟨fieldAt (["event".toList, "tags".toList], v), ?_, ?_⟩
    · rw [hfields]
      exact List.mem_map_of_mem leaf
    · rw [fieldAt, name_leafField, dotted_eq_tagsName.mpr (.inr rfl)]
  · intro before after f name hsplit hname hbefore hother
    have found : e.field? name = some f := by
      rw [Event.field?, Fields.find?, hsplit, List.find?_append]
      have none : before.find? (fun g => g.name = some name) = none :=
        List.find?_eq_none.mpr (by simpa using hbefore)
      simp [none, hname]
    rw [Event.fieldText, if_neg hother, found]
    rfl
  · rw [Event.fieldText, Event.fieldText, if_pos rfl, if_pos rfl]

theorem tagsName_field_iff_sibling :
    let line : Text :=
      "\x7b\"event\":\x7b\"tags\":\x7b\"a\":1\x7d,\"id\":[2,3]\x7d,\"event.tags\":[\"t\"]\x7d"
    let fs : List Field :=
      [.single "event.tags.a" (.string "1"), ⟨some "event.id", [.string "2", .string "3"]⟩]
    event line = .ok ⟨some ["t"], fs⟩ ∧ ¬ HasNestedTags line ∧
      Event.fieldText ⟨some ["t"], fs⟩ "event.id" = .ok "23" := by
  intro line fs
  have h : event line = .ok ⟨some ["t"], fs⟩ := toOption_eq_some_iff.mp (by decide +kernel)
  obtain ⟨hiff, hfound, -⟩ := tagsName_field_iff h
  refine ⟨h, fun hn => absurd (hiff.mpr hn) (by decide), ?_⟩
  exact hfound [.single "event.tags.a" (.string "1")] [] _ _ rfl rfl (by decide) (by decide)

/-- A member below another makes a field of the name of the tags, and it is not found by it. -/
theorem nested_tags_hidden :
    let line : Text := "\x7b\"event\":\x7b\"tags\":1\x7d\x7d"
    let e : Event := ⟨none, [.single Event.tagsName (.string "1")]⟩
    (event line).toOption = some e ∧
      e.fieldText Event.tagsName = .error (.notFound (.field Event.tagsName)) := by
  decide +kernel

end JsonLine

end EventLog
