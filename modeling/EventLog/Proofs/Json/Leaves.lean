import EventLog.Proofs.Json.RoundTrip
import Mathlib.Data.List.Basic

/-!
# The leaves of a JSON line

The decoder of JSON lines flattens objects.  `JsonLine.leaves` are the values that are no object,
each with the names of the members it is reached by (its path).  The tags at the top apart, every
leaf is a field, and the field's name is the path with points in between.

A leaf that is an array with more items than a field has room for is a fault, and so are tags at the
top that are no array (`JsonLine.faults`).  The decoder stops at the first fault in the order of the
line; it gathers fields part by part, and so do faults and leaves (`gather_append`).

* `eventOf_leaves`: the event of an object is its first fault, or else its leaves and tags.
-/

namespace EventLog

/-! ### Events -/

namespace Event

/-- An event with tags and fields behind its own.  Without tags there is no new bucket. -/
def extend (e : Event) (ts : List Text) (fs : List Field) : Event where
  tags := if ts = [] then e.tags else some (e.tags.getD [] ++ ts)
  fields := e.fields ++ fs

theorem extend_nil (e : Event) : e.extend [] [] = e := by
  rw [extend, if_pos rfl, List.append_nil]

theorem extend_extend (e : Event) (ts ts' : List Text) (fs fs' : List Field) :
    (e.extend ts fs).extend ts' fs' = e.extend (ts ++ ts') (fs ++ fs') := by
  rw [extend, extend, extend, List.append_assoc]
  by_cases h : ts = []
  · subst h
    rfl
  · by_cases h' : ts' = [] <;> simp [h, h']

theorem foldl_addTag_eq_extend (ts : List Text) (e : Event) :
    ts.foldl addTag e = e.extend ts [] := by
  rw [foldl_addTag, extend, List.append_nil]
  split <;> rfl

end Event

namespace JsonLine

/-! ### Leaves and faults -/

/-- The names of a path with points in between. -/
def dotted (path : List Text) : Text := ['.'].intercalate path

mutual

/-- The leaves of a value, each with its path. -/
def leaves : Json → List (List Text × Json)
  | .object members => leavesBelow members
  | v               => [([], v)]

/-- The leaves of the values of members, each with its path. -/
def leavesBelow : List (Text × Json) → List (List Text × Json)
  | []           => []
  | (k, v) :: ms => (leaves v).map (fun l => (k :: l.1, l.2)) ++ leavesBelow ms

end

/-- The field of a leaf. -/
def fieldAt (l : List Text × Json) : Field := leafField (dotted l.1, l.2)

/-- The members of the object that a line holds, one of each name. -/
def members? (line : Text) : Option (List (Text × Json)) :=
  match (Json.read line).map Json.distinct with
  | some (.object ms) => some ms
  | _                 => none

/-- The members at the top that are made fields. -/
def fieldMembers (ms : List (Text × Json)) : List (Text × Json) :=
  ms.filter fun m => m.1 ≠ Event.tagsName

/-- What is wrong with a leaf: an array has more items than a field has room for. -/
def fault? : List Text × Json → Option EventError
  | (path, .array items) =>
    if Field.maxValues < items.length then some (.tooManyValues (dotted path) Field.maxValues)
    else none
  | _                    => none

/-- A result, or the first of the faults if there are any. -/
def verdict {α : Type} (faults : List EventError) (a : α) : Except EventError α :=
  match faults with
  | []         => .ok a
  | fault :: _ => .error fault

/-- The fields of leaves. -/
def gather (ls : List (List Text × Json)) : Except EventError (List Field) :=
  verdict (ls.filterMap fault?) (ls.map fieldAt)

/-- What is wrong with a member at the top, in the order it stands in the line. -/
def faultsOf (m : Text × Json) : List EventError :=
  if m.1 = Event.tagsName then
    match m.2 with
    | .array _ => []
    | _        => [.invalidFormat .tagsNotArray]
  else (leavesBelow [m]).filterMap fault?

/-- What is wrong with the members at the top, in the order they stand in the line. -/
def faults (ms : List (Text × Json)) : List EventError := ms.flatMap faultsOf

/-- The tags that a member at the top holds. -/
def tagsOf (m : Text × Json) : List Text :=
  if m.1 = Event.tagsName then
    match m.2 with
    | .array items => items.map scalarText
    | _            => []
  else []

/-- The tags that the members at the top hold. -/
def tagTexts (ms : List (Text × Json)) : List Text := ms.flatMap tagsOf

/-! ### Fields are leaves -/

@[simp] theorem name_leafField (m : Text × Json) : (leafField m).name = some m.1 := by
  obtain ⟨name, v⟩ := m
  cases v <;> rfl

theorem dotted_singleton (name : Text) : dotted [name] = name := List.intercalate_singleton

theorem dotted_cons_cons (name k : Text) (path : List Text) :
    dotted (name :: k :: path) = name ++ "." ++ dotted (k :: path) :=
  List.intercalate_cons_cons

/-- A member below another has a path that begins with both names. -/
theorem dotted_joined (name k : Text) (path : List Text) :
    dotted ((name ++ "." ++ k) :: path) = dotted (name :: k :: path) := by
  cases path with
  | nil => simp [dotted_cons_cons, dotted_singleton]
  | cons l path => simp [dotted_cons_cons]

theorem fieldAt_singleton (name : Text) (v : Json) : fieldAt ([name], v) = leafField (name, v) := by
  rw [fieldAt, dotted_singleton]

theorem fieldAt_joined (name k : Text) (path : List Text) (v : Json) :
    fieldAt ((name ++ "." ++ k) :: path, v) = fieldAt (name :: k :: path, v) := by
  rw [fieldAt, fieldAt, dotted_joined]

theorem fault?_joined (name k : Text) (path : List Text) (v : Json) :
    fault? ((name ++ "." ++ k) :: path, v) = fault? (name :: k :: path, v) := by
  cases v with
  | array items => rw [fault?, fault?, dotted_joined]
  | object _ | null | bool _ | number _ | string _ => rfl

/-- Two steps are as good as one that has the faults of both. -/
theorem verdict_bind {α β : Type} (faults more : List EventError) (a : α) (f : α → β) :
    (verdict faults a >>= fun a => verdict more (f a)) = verdict (faults ++ more) (f a) := by
  cases faults <;> rfl

theorem verdict_map {α β : Type} (faults : List EventError) (a : α) (f : α → β) :
    (verdict faults a >>= fun a => .ok (f a)) = verdict faults (f a) := by
  cases faults <;> rfl

theorem exists_verdict_eq_error_iff {α : Type} {faults : List EventError} {a : α} :
    (∃ fault, verdict faults a = .error fault) ↔ ∃ fault, fault ∈ faults := by
  cases faults with
  | nil => simp [verdict]
  | cons fault faults => exact iff_of_true ⟨fault, rfl⟩ ⟨fault, List.mem_cons_self⟩

theorem verdict_eq_ok_iff {α : Type} {faults : List EventError} {a b : α} :
    verdict faults a = .ok b ↔ faults = [] ∧ a = b := by
  cases faults <;> simp [verdict]

theorem gather_of_none {l : List Text × Json} (h : fault? l = none) :
    gather [l] = .ok [fieldAt l] := by
  simp [gather, h, verdict]

theorem gather_of_some {l : List Text × Json} {fault : EventError} (h : fault? l = some fault) :
    gather [l] = .error fault := by
  simp [gather, h, verdict]

/-- Leaves are gathered part by part. -/
theorem gather_append (ls ls' : List (List Text × Json)) :
    gather (ls ++ ls') = do return (← gather ls) ++ (← gather ls') := by
  rw [gather, List.filterMap_append, List.map_append]
  unfold gather
  cases ls.filterMap fault? with
  | nil => cases ls'.filterMap fault? <;> rfl
  | cons => rfl

/-- The first of two names on a path may be joined to the second. -/
theorem gather_joined (name k : Text) (ls : List (List Text × Json)) :
    gather (ls.map fun l => ((name ++ "." ++ k) :: l.1, l.2)) =
      gather (ls.map fun l => (name :: k :: l.1, l.2)) := by
  simp only [gather, List.filterMap_map, List.map_map, Function.comp_def, fieldAt_joined,
    fault?_joined]

mutual

/-- The fields of a member are its leaves. -/
theorem fieldsOf_eq_gather :
    ∀ (v : Json) (name : Text),
      fieldsOf name v = gather ((leaves v).map fun l => (name :: l.1, l.2))
  | .object members, name => by rw [fieldsOf, fieldsBelow_eq_gather members, leaves]
  | .array items, name => by
      have leaf : leaves (.array items) = [([], .array items)] := leaves.eq_2 _ (by simp)
      rw [leaf, List.map_singleton]
      by_cases h : items.length ≤ Field.maxValues
      · have fits : fault? ([name], .array items) = none := if_neg (Nat.not_lt.mpr h)
        rw [fieldsOf_leaf (by exact h), gather_of_none fits, fieldAt_singleton]
      · have full : fault? ([name], .array items) = some _ := if_pos (Nat.lt_of_not_le h)
        have room : (Field.named name).values.length ≤ Field.maxValues := Nat.zero_le _
        have refused : (Field.named name).addTexts (items.map scalarText) =
            .error (.tooManyValues name Field.maxValues) := by
          rw [Field.addTexts_eq room, if_neg (by simpa [Field.named] using h)]
          rfl
        rw [fieldsOf, refused, gather_of_some full, dotted_singleton]
        rfl
  | .null, name | .bool _, name | .number _, name | .string _, name => by
      rw [leaves, List.map_singleton, gather_of_none rfl, fieldAt_singleton]
      · rfl
      · simp

theorem fieldsBelow_eq_gather :
    ∀ (members : List (Text × Json)) (name : Text),
      fieldsBelow name members = gather ((leavesBelow members).map fun l => (name :: l.1, l.2))
  | [], name => rfl
  | (k, v) :: members, name => by
      rw [fieldsBelow, fieldsOf_eq_gather v, fieldsBelow_eq_gather members, gather_joined,
        leavesBelow, List.map_append, gather_append, List.map_map]
      rfl

end

theorem leavesBelow_append (ms ms' : List (Text × Json)) :
    leavesBelow (ms ++ ms') = leavesBelow ms ++ leavesBelow ms' := by
  induction ms with
  | nil => rfl
  | cons m ms ih => rw [List.cons_append, leavesBelow, leavesBelow, ih, List.append_assoc]

theorem leavesBelow_singleton (name : Text) (v : Json) :
    leavesBelow [(name, v)] = (leaves v).map fun l => (name :: l.1, l.2) := List.append_nil _

/-- What a member at the top adds to an event. -/
theorem addMember_eq (e : Event) (m : Text × Json) :
    addMember e m.1 m.2 = verdict (faultsOf m)
      (e.extend (tagsOf m) ((leavesBelow (fieldMembers [m])).map fieldAt)) := by
  obtain ⟨name, v⟩ := m
  by_cases h : name = Event.tagsName
  · have none : fieldMembers [(name, v)] = [] := by simp [fieldMembers, h]
    simp only [addMember, faultsOf, tagsOf, if_pos h, none]
    cases v with
    | array items => exact congrArg Except.ok (Event.foldl_addTag_eq_extend _ e)
    | object _ | null | bool _ | number _ | string _ => rfl
  · have one : fieldMembers [(name, v)] = [(name, v)] := by simp [fieldMembers, h]
    simp only [addMember, faultsOf, tagsOf, if_neg h, one, fieldsOf_eq_gather,
      leavesBelow_singleton]
    exact verdict_map _ _ fun fs => e.extend [] fs

/-- What the members at the top add to an event: their tags and their leaves, if none is faulty. -/
theorem addMembers_eq (ms : List (Text × Json)) :
    ∀ e : Event, addMembers e ms = verdict (faults ms)
      (e.extend (tagTexts ms) ((leavesBelow (fieldMembers ms)).map fieldAt)) := by
  induction ms with
  | nil => exact fun e => congrArg Except.ok e.extend_nil.symm
  | cons m ms ih =>
      intro e
      have split : fieldMembers (m :: ms) = fieldMembers [m] ++ fieldMembers ms :=
        List.filter_append [m] ms
      rw [addMembers, addMember_eq]
      simp only [ih]
      rw [verdict_bind, Event.extend_extend, split, leavesBelow_append, List.map_append]
      rfl

/-- The event of members: the first fault, or the tags and the leaves. -/
theorem eventOf_object (ms : List (Text × Json)) :
    eventOf (.object ms) = verdict (faults ms)
      (Event.empty.extend (tagTexts ms) ((leavesBelow (fieldMembers ms)).map fieldAt)) :=
  addMembers_eq ms .empty

/-- The event of a line is that of its members. -/
theorem event_eq_eventOf {line : Text} {ms : List (Text × Json)} (h : members? line = some ms) :
    event line = eventOf (.object ms) := by
  unfold members? at h
  split at h
  · next ms' hms =>
      cases h
      obtain ⟨v, hv, hdistinct⟩ := Option.map_eq_some_iff.mp hms
      rw [event, hv]
      exact congrArg eventOf hdistinct
  · cases h

theorem members?_of_event {line : Text} {e : Event} (h : event line = .ok e) :
    ∃ ms, members? line = some ms := by
  unfold event at h
  split at h
  · next v hv =>
      unfold eventOf at h
      split at h
      · next ms hms => exact ⟨ms, by rw [members?, hv, Option.map_some, hms]⟩
      · cases h
  · cases h

/-- The fields of a line are the leaves of its members, the tags at the top apart. -/
theorem event_fields {line : Text} {e : Event} (h : event line = .ok e) :
    ∃ ms, members? line = some ms ∧ e.fields = (leavesBelow (fieldMembers ms)).map fieldAt := by
  obtain ⟨ms, hms⟩ := members?_of_event h
  rw [event_eq_eventOf hms, eventOf_object, verdict_eq_ok_iff] at h
  exact ⟨ms, hms, h.2 ▸ rfl⟩

/-! ### Paths -/

theorem mem_leavesBelow {ms : List (Text × Json)} {path : List Text} {w : Json} :
    (path, w) ∈ leavesBelow ms ↔
      ∃ k v below, (k, v) ∈ ms ∧ path = k :: below ∧ (below, w) ∈ leaves v := by
  induction ms with
  | nil => simp [leavesBelow]
  | cons m ms ih =>
      obtain ⟨k, v⟩ := m
      rw [leavesBelow, List.mem_append, ih]
      constructor
      · rintro (h | ⟨k', v', below, hm, rfl, hw⟩)
        · obtain ⟨l, hl, heq⟩ := List.mem_map.mp h
          cases heq
          exact ⟨k, v, l.1, List.mem_cons_self, rfl, hl⟩
        · exact ⟨k', v', below, List.mem_cons_of_mem _ hm, rfl, hw⟩
      · rintro ⟨k', v', below, hm, rfl, hw⟩
        rcases List.mem_cons.mp hm with heq | hm
        · cases heq
          exact .inl (List.mem_map.mpr ⟨(below, w), hw, rfl⟩)
        · exact .inr ⟨k', v', below, hm, rfl, hw⟩

/-- A value is its own leaf unless it is an object. -/
theorem nil_mem_leaves {v w : Json} : ([], w) ∈ leaves v ↔ v = w ∧ ∀ ms, v ≠ .object ms := by
  cases v with
  | object ms => simp [leaves, mem_leavesBelow]
  | null | bool _ | number _ | string _ | array _ => simp [leaves, eq_comm]

/-- A value that is reached from members through objects only, and the path to it. -/
inductive Reached : List (Text × Json) → List Text → Json → Prop where
  | here {ms : List (Text × Json)} {k : Text} {v : Json} (h : (k, v) ∈ ms) : Reached ms [k] v
  | inside {ms inner : List (Text × Json)} {k : Text} {path : List Text} {v : Json}
      (h : (k, .object inner) ∈ ms) (hv : Reached inner path v) : Reached ms (k :: path) v

theorem reached_of_mem_leavesBelow {path : List Text} {ms : List (Text × Json)} {w : Json}
    (h : (path, w) ∈ leavesBelow ms) : Reached ms path w ∧ ∀ inner, w ≠ .object inner := by
  induction path generalizing ms with
  | nil => simp [mem_leavesBelow] at h
  | cons k path ih =>
      obtain ⟨_, v, _, hm, heq, hw⟩ := mem_leavesBelow.mp h
      cases heq
      cases v with
      | object inner =>
          obtain ⟨hreached, hleaf⟩ := ih hw
          exact ⟨.inside hm hreached, hleaf⟩
      | null | bool _ | number _ | string _ | array _ =>
          cases List.mem_singleton.mp hw
          exact ⟨.here hm, by simp⟩

/-- The leaves are the values reached that are no objects. -/
theorem mem_leavesBelow_iff_reached {path : List Text} {ms : List (Text × Json)} {w : Json} :
    (path, w) ∈ leavesBelow ms ↔ Reached ms path w ∧ ∀ inner, w ≠ .object inner := by
  constructor
  · exact reached_of_mem_leavesBelow
  · rintro ⟨hreached, hleaf⟩
    induction hreached with
    | here h => exact mem_leavesBelow.mpr ⟨_, _, [], h, rfl, nil_mem_leaves.mpr ⟨rfl, hleaf⟩⟩
    | inside h _ ih => exact mem_leavesBelow.mpr ⟨_, _, _, h, rfl, ih hleaf⟩

/-! ### Where the faults are -/

theorem fault?_eq_some_iff {path : List Text} {v : Json} {fault : EventError} :
    fault? (path, v) = some fault ↔
      ∃ items, v = .array items ∧ Field.maxValues < items.length ∧
        fault = .tooManyValues (dotted path) Field.maxValues := by
  cases v with
  | array items =>
      rw [fault?]
      split <;> simp [*, eq_comm]
  | object _ | null | bool _ | number _ | string _ => simp [fault?]

/-- What is wrong with a member at the top: it has the name of the tags and is no array, or has
another name and an array among its leaves with too many items. -/
theorem exists_mem_faultsOf_iff {m : Text × Json} :
    (∃ fault, fault ∈ faultsOf m) ↔
      (m.1 = Event.tagsName ∧ ∀ items, m.2 ≠ .array items) ∨
        m.1 ≠ Event.tagsName ∧ ∃ path items,
          (path, .array items) ∈ leavesBelow [m] ∧ Field.maxValues < items.length := by
  obtain ⟨name, v⟩ := m
  by_cases h : name = Event.tagsName
  · rw [faultsOf, if_pos h]
    cases v <;> simp [h]
  · rw [faultsOf, if_neg h]
    simp only [List.mem_filterMap, Prod.exists, fault?_eq_some_iff, h, false_and, false_or,
      ne_eq, not_false_eq_true, true_and]
    constructor
    · rintro ⟨_, path, _, hl, items, rfl, full, -⟩
      exact ⟨path, items, hl, full⟩
    · rintro ⟨path, items, hl, full⟩
      exact ⟨_, path, _, hl, items, rfl, full, rfl⟩

theorem mem_leavesBelow_fieldMembers {l : List Text × Json} {ms : List (Text × Json)} :
    l ∈ leavesBelow (fieldMembers ms) ↔ ∃ m ∈ ms, m.1 ≠ Event.tagsName ∧ l ∈ leavesBelow [m] := by
  induction ms with
  | nil => simp [fieldMembers, leavesBelow]
  | cons m ms ih =>
      have split : fieldMembers (m :: ms) = fieldMembers [m] ++ fieldMembers ms :=
        List.filter_append [m] ms
      rw [split, leavesBelow_append, List.mem_append, ih, List.exists_mem_cons_iff]
      by_cases h : m.1 = Event.tagsName <;> simp [fieldMembers, h, leavesBelow]

/-- Where there is a fault. -/
theorem exists_mem_faults_iff {ms : List (Text × Json)} :
    (∃ fault, fault ∈ faults ms) ↔
      (∃ v, (Event.tagsName, v) ∈ ms ∧ ∀ items, v ≠ .array items) ∨
        ∃ path items, Reached (fieldMembers ms) path (.array items) ∧
          Field.maxValues < items.length := by
  constructor
  · rintro ⟨fault, hfault⟩
    obtain ⟨m, hm, hfault⟩ := List.mem_flatMap.mp hfault
    rcases exists_mem_faultsOf_iff.mp ⟨fault, hfault⟩ with
      ⟨hname, hv⟩ | ⟨hname, path, items, hl, full⟩
    · exact .inl ⟨m.2, hname ▸ hm, hv⟩
    · have leaf := mem_leavesBelow_fieldMembers.mpr ⟨m, hm, hname, hl⟩
      exact .inr ⟨path, items, (mem_leavesBelow_iff_reached.mp leaf).1, full⟩
  · rintro (⟨v, hm, hv⟩ | ⟨path, items, hreached, full⟩)
    · obtain ⟨fault, hfault⟩ :=
        (exists_mem_faultsOf_iff (m := (Event.tagsName, v))).mpr (.inl ⟨rfl, hv⟩)
      exact ⟨fault, List.mem_flatMap.mpr ⟨_, hm, hfault⟩⟩
    · obtain ⟨m, hm, hname, hl⟩ := mem_leavesBelow_fieldMembers.mp
        (mem_leavesBelow_iff_reached.mpr ⟨hreached, by simp⟩)
      obtain ⟨fault, hfault⟩ := exists_mem_faultsOf_iff.mpr (.inr ⟨hname, path, items, hl, full⟩)
      exact ⟨fault, List.mem_flatMap.mpr ⟨m, hm, hfault⟩⟩

/-! ### Main statement -/

/-- **The event of an object is the list of its leaves.**  The fields are the values other than
objects that are reached through objects only, in the order of the line, and the tags are the items
of `event.tags` at the top.  The first fault takes the place of the event: tags that are no array,
or an array among the leaves with more items than a field has room for. -/
theorem eventOf_leaves (ms : List (Text × Json)) :
    (eventOf (.object ms) = verdict (faults ms)
      ⟨if tagTexts ms = [] then none else some (tagTexts ms),
        (leavesBelow (fieldMembers ms)).map fieldAt⟩) ∧
      ((∃ fault, eventOf (.object ms) = .error fault) ↔
        (∃ v, (Event.tagsName, v) ∈ ms ∧ ∀ items, v ≠ .array items) ∨
          ∃ path items, Reached (fieldMembers ms) path (.array items) ∧
            Field.maxValues < items.length) ∧
      (∀ path v, (path, v) ∈ leavesBelow (fieldMembers ms) ↔
        Reached (fieldMembers ms) path v ∧ ∀ inner, v ≠ .object inner) ∧
      ∀ line, members? line = some ms → event line = eventOf (.object ms) := by
  refine ⟨eventOf_object ms, ?_, fun _ _ => mem_leavesBelow_iff_reached,
    fun _ => event_eq_eventOf⟩
  rw [eventOf_object, exists_verdict_eq_error_iff, exists_mem_faults_iff]

example :
    let line : Text := "\x7b\"a\":\x7b\"b\":[1,[2,\"x\"]],\"c\":\x7b\x7d\x7d,\"d\":null\x7d"
    (event line).toOption = some ⟨none,
      [⟨some "a.b", [.string "1", .string "[2,\"x\"]"]⟩, .single "d" (.string "-")]⟩ := by
  decide +kernel

end JsonLine

end EventLog
