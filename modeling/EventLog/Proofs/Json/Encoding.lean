import EventLog.Encoder
import EventLog.Proofs.Encoding.Shown
import EventLog.Proofs.Json.Grammar
import Mathlib.Data.List.Forall2

/-!
# Encoded events as JSON values

`Layout.members` are the members that an event is written as: the tags, if they are asked for, and
then every field that is shown.

* `quoted_jsonString`: what is written between quotes is a string of JSON, and has the text that was
  to be written.
* `value_encode`: an encoded event is an object of JSON with these members, whatever the names and
  texts of the event are, and `read_encode`: it is read as this object.
* `encode_json_element_iff`: it is the text of no other value.
-/

namespace EventLog.Layout

open Json Json.Grammar

/-- The JSON value of the texts of a field. -/
def valueOf : List Text → Json
  | []  => .string []
  | [t] => .string t
  | ts  => .array (ts.map .string)

/-- The member for the tags, if it is written. -/
def tagsMember (flags : Flags) (e : Event) : List (Text × Json) :=
  ((e.tags.filter fun _ => flags.includeFlatTags).map fun tags =>
    (Event.tagsName, .array (tags.map .string))).toList

/-- The member for a field. -/
def fieldMember (f : Field) : Text × Json := (f.label, valueOf f.texts)

/-- The members for the fields that are shown. -/
def fieldMembers (flags : Flags) (e : Event) : List (Text × Json) :=
  (e.shownFields flags).map fieldMember

/-- All members. -/
def members (flags : Flags) (e : Event) : List (Text × Json) :=
  tagsMember flags e ++ fieldMembers flags e

/-- What is written for a field is a string or an array of strings. -/
theorem valueOf_cases {P : Json → Prop} (string : ∀ t, P (.string t))
    (array : ∀ ts : List Text, P (.array (ts.map .string))) (ts : List Text) : P (valueOf ts) := by
  match ts with
  | []          => exact string []
  | [t]         => exact string t
  | t :: u :: w => exact array (t :: u :: w)

/-- A member is written for the tags or for a field. -/
theorem forall_mem_members {P : Text × Json → Prop}
    (tags : ∀ ts : List Text, P (Event.tagsName, .array (ts.map .string)))
    (field : ∀ f, P (fieldMember f)) (flags : Flags) (e : Event) : ∀ m ∈ members flags e, P m := by
  intro m hm
  rcases List.mem_append.mp hm with h | h
  · obtain ⟨ts, -, rfl⟩ := Option.map_eq_some_iff.mp (Option.mem_toList.mp h)
    exact tags ts
  · obtain ⟨f, -, rfl⟩ := List.mem_map.mp h
    exact field f

/-! ### Strings -/

/-- The digits of a control character. -/
theorem codeUnit_control {n : Nat} (h : n < 0x20) :
    CodeUnit (['0', '0'] ++ (Text.hexByte n).map Char.toUpper) n := by
  have all : ∀ n < 0x20, let digits := ['0', '0'] ++ (Text.hexByte n).map Char.toUpper
      digits.length = 4 ∧ digits.all Text.isHexDigit ∧ Text.ofHex digits = n := by
    decide
  obtain ⟨length, digits, value⟩ := all n h
  exact ⟨length, digits, value⟩

/-- The escapes of the output formats are those of JSON. -/
theorem spelling_quotedChar (c : Char) : Spelling (Escape.quotedChar c) c := by
  fun_cases Escape.quotedChar c with
  | case1 | case2 | case3 | case4 | case5 | case6 | case7 | case8 => exact .escaped (by decide)
  | case9 =>
      rw [if_pos ‹_›]
      exact .unit (codeUnit_control ‹_›)
  | case10 =>
      rw [if_neg ‹_›]
      exact .unescaped ‹_› ‹_› (Nat.not_lt.mp ‹_›)

theorem content_quoted (t : Text) : Content (Escape.quoted t) t := by
  induction t with
  | nil => exact .nil
  | cons c t ih => exact .cons (spelling_quotedChar c) ih

theorem quoted_jsonString (t : Text) : Quoted (jsonString t) t := .intro (content_quoted t)

/-! ### Entries -/

theorem element_jsonString (t : Text) : Element (jsonString t) (.string t) :=
  .of_value (.string (quoted_jsonString t))

theorem value_jsonArray (ts : List Text) :
    Grammar.Value (jsonArray ts) (.array (ts.map .string)) := by
  have items : List.Forall₂ Element (ts.map jsonString) (ts.map .string) := by
    rw [List.forall₂_map_left_iff, List.forall₂_map_right_iff, List.forall₂_same]
    exact fun t _ => element_jsonString t
  exact .array_intercalate blanks_nil items

theorem value_jsonTexts (ts : List Text) : Grammar.Value (jsonTexts ts) (valueOf ts) := by
  match ts with
  | []          => exact .string (quoted_jsonString [])
  | [t]         => exact .string (quoted_jsonString t)
  | t :: u :: w => exact value_jsonArray (t :: u :: w)

/-- Behind a colon and behind a comma stand the same blanks. -/
theorem jsonColon_jsonComma (compact : Bool) :
    ∃ w, Blanks w ∧ jsonColon compact = ':' :: w ∧ jsonComma compact = ',' :: w := by
  cases compact with
  | true => exact ⟨[], blanks_nil, rfl, rfl⟩
  | false => exact ⟨[' '], by simp [Blanks], rfl, rfl⟩

/-- The text of a member, with the blank that may stand behind its colon. -/
theorem member_jsonColon (name : Text) (compact : Bool) {t : Text} {v : Json}
    (h : Grammar.Value t v) : Member (jsonString name ++ jsonColon compact ++ t) (name, v) := by
  obtain ⟨w, blanks, colon, -⟩ := jsonColon_jsonComma compact
  rw [colon, List.append_assoc]
  exact .intro (.of_quoted (quoted_jsonString name)) ((Element.of_value h).pad blanks)

/-- Every entry is the text of a member. -/
theorem members_entries (flags : Flags) (e : Event) :
    List.Forall₂ Member (jsonObject.entries flags e) (members flags e) := by
  refine List.rel_append ?tags ?fields
  case tags =>
    rw [tagsMember]
    change List.Forall₂ Member ((e.tags.filter fun _ => flags.includeFlatTags).map _).toList _
    cases e.tags.filter fun _ => flags.includeFlatTags with
    | none => exact .nil
    | some tags => exact .cons (member_jsonColon Event.tagsName true (value_jsonArray tags)) .nil
  case fields =>
    rw [keptFields_eq_shownFields, fieldMembers, List.forall₂_map_left_iff,
      List.forall₂_map_right_iff, List.forall₂_same]
    exact fun f _ => member_jsonColon f.label flags.ultraCompact (value_jsonTexts f.texts)

/-! ### Events -/

/-- **An encoded event is an object with its members.** -/
theorem value_encode (flags : Flags) (e : Event) :
    Grammar.Value (Encoder.json.encode flags e) (.object (members flags e)) := by
  obtain ⟨w, blanks, -, comma⟩ := jsonColon_jsonComma flags.ultraCompact
  have text : Encoder.json.encode flags e =
      '\x7b' :: (jsonComma flags.ultraCompact).intercalate (jsonObject.entries flags e) ++
        ['\x7d'] := rfl
  rw [text, comma]
  exact .object_intercalate blanks (members_entries flags e)

theorem depth_array (ts : List Text) : (Json.array (ts.map .string)).depth ≤ 1 := by
  refine Nat.succ_le_succ (Json.itemDepth_le ?_)
  intro v hv
  obtain ⟨t, -, rfl⟩ := List.mem_map.mp hv
  exact Nat.le_refl 0

theorem depth_members (flags : Flags) (e : Event) : (Json.object (members flags e)).depth ≤ 2 := by
  refine Nat.succ_le_succ (Json.memberDepth_le (forall_mem_members depth_array ?_ flags e))
  intro f
  exact valueOf_cases (P := fun v => v.depth ≤ 1) (fun _ => Nat.zero_le 1) depth_array f.texts

/-- **An encoded event is read as the object with its members.** -/
theorem read_encode (flags : Flags) (e : Event) :
    Json.read (Encoder.json.encode flags e) = some (.object (members flags e)) :=
  (Element.of_value (value_encode flags e)).read (Nat.le_trans (depth_members flags e) (by decide))

/-- **An encoded event is one JSON text.**  The grammar gives it the object with its members as its
value and no other, and this is also what a reader makes of it that keeps all members in their
order. -/
theorem encode_json_element_iff (flags : Flags) (e : Event) :
    let written := Encoder.json.encode flags e
    (∀ v, Element written v ↔ v = .object (members flags e)) ∧
      Json.read written = some (.object (members flags e)) := by
  have element := Element.of_value (value_encode flags e)
  refine ⟨fun v => ⟨fun h => h.unique element, ?_⟩, read_encode flags e⟩
  rintro rfl
  exact element

/-- Tags, an unnamed field without values, one name twice and texts with escapes, in both modes. -/
theorem encode_json_element_iff_escapes :
    let e : Event := ⟨some ["t", "\"\n"],
      [⟨none, []⟩, ⟨some "a", [.number 7]⟩, ⟨some "a", [.string "\\", .string "é\x00"]⟩]⟩
    let tags : Text × Json := ("event.tags", .array [.string "t", .string "\"\n"])
    let first : Text × Json := ("a", .string "7")
    let second : Text × Json := ("a", .array [.string "\\", .string "é\x00"])
    let plain : Text := "\x7b\"event.tags\":[\"t\",\"\\\"\\n\"], \"\": \"\", \"a\": \"7\", " ++
      "\"a\": [\"\\\\\",\"é\\u0000\"]\x7d"
    let compact : Text := "\x7b\"a\":\"7\",\"a\":[\"\\\\\",\"é\\u0000\"]\x7d"
    Encoder.json.encode ⟨false, true⟩ e = plain ∧ Encoder.json.encode ⟨true, false⟩ e = compact ∧
      (∀ v, Element plain v ↔ v = .object [tags, ([], .string []), first, second]) ∧
      ∀ v, Element compact v ↔ v = .object [first, second] := by
  intro e tags first second plain compact
  have hplain : Encoder.json.encode ⟨false, true⟩ e = plain := by decide +kernel
  have hcompact : Encoder.json.encode ⟨true, false⟩ e = compact := by decide +kernel
  have all := (encode_json_element_iff ⟨false, true⟩ e).1
  have some := (encode_json_element_iff ⟨true, false⟩ e).1
  rw [hplain] at all
  rw [hcompact] at some
  exact ⟨hplain, hcompact, all, some⟩

end EventLog.Layout
