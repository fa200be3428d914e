import EventLog.Proofs.Text.Numeral
import EventLog.Settings.Document

/-!
# How settings are spelled

The value of a setting is of one of five kinds.  Here it is said without readers what stands for a
value: the text of a variable (`Kind.Spells`), and what a document has (`Kind.Holds`).

* `Kind.ofVariable?_eq_some_iff`, `Kind.ofToml?_eq_some_iff`: this is what is read, and nothing else
  is.
-/

namespace EventLog.Settings

/-- A kind of value. -/
inductive Kind where
  | text
  | bool
  | size
  | compliance
  /-- A list of names that may be missing. -/
  | names
deriving Repr, DecidableEq

namespace Kind

/-- The values of a kind. -/
abbrev Value : Kind → Type
  | text       => Text
  | bool       => Bool
  | size       => Nat
  | compliance => Compliance
  | names      => Option Text

/-- A value as a variable spells it.  An empty list of names is none. -/
def ofVariable? : (k : Kind) → Text → Option k.Value
  | text       => some
  | bool       => readBool?
  | size       => readSize?
  | compliance => Compliance.ofName?
  | names      => fun t => some (readList t)

/-- A value as a document spells it.  A list of names that is there is one, even an empty one. -/
def ofToml? : (k : Kind) → Toml → Option k.Value
  | text       => text?
  | bool       => bool?
  | size       => size?
  | compliance => compliance?
  | names      => fun v => (text? v).map some

/-! ### Variables -/

/-- The text of a variable stands for a value.  A truth value and a compliance level are named, and
a size is a number below `2 ^ 64`, with any number of zeros in front and perhaps a plus sign.  The
empty text stands for no list of names. -/
inductive Spells : (k : Kind) → Text → k.Value → Prop where
  | text (t : Text) : Spells .text t t
  | true : Spells .bool "true" Bool.true
  | false : Spells .bool "false" Bool.false
  | size {n : Nat} (fits : n < 2 ^ 64) (width : Nat) : Spells .size (Text.zeroPadded width n) n
  | sizeBehindPlus {n : Nat} (fits : n < 2 ^ 64) (width : Nat) :
      Spells .size ('+' :: Text.zeroPadded width n) n
  | notCompliant : Spells .compliance "none" Compliance.none
  | compliant : Spells .compliance "full" Compliance.full
  | noNames : Spells .names [] none
  | names {t : Text} (ht : t ≠ []) : Spells .names t (some t)

theorem readBool?_eq_some_iff {t : Text} {b : Bool} : readBool? t = some b ↔ Spells .bool t b := by
  constructor
  · intro h
    rw [readBool?] at h
    by_cases yes : t = "true"
    · rw [if_pos yes] at h
      cases h
      exact yes ▸ .true
    · rw [if_neg yes] at h
      by_cases no : t = "false"
      · rw [if_pos no] at h
        cases h
        exact no ▸ .false
      · rw [if_neg no] at h
        cases h
  · intro h
    cases h with
    | true | false => rfl

theorem spells_size_iff {t : Text} {n : Nat} :
    Spells .size t n ↔
      n < 2 ^ 64 ∧ ∃ width, t = '+' :: Text.zeroPadded width n ∨ t = Text.zeroPadded width n := by
  constructor
  · intro h
    cases h with
    | size fits width => exact ⟨fits, width, .inr rfl⟩
    | sizeBehindPlus fits width => exact ⟨fits, width, .inl rfl⟩
  · rintro ⟨fits, width, rfl | rfl⟩
    · exact .sizeBehindPlus fits width
    · exact .size fits width

/-- Digits are read as their number, if it is a size. -/
theorem digits_eq_some_iff {ds : Text} {n : Nat} :
    (if ds ≠ [] ∧ ds.all Char.isDigit ∧ Text.toNat ds ≤ maxSize then some (Text.toNat ds)
      else none) = some n ↔ n < 2 ^ 64 ∧ ∃ width, ds = Text.zeroPadded width n := by
  have size : n ≤ maxSize ↔ n < 2 ^ 64 := Nat.lt_succ_iff.symm
  rw [Option.ite_none_right_eq_some, Option.some_inj, ← Text.digits_iff_exists_zeroPadded, ← size,
    List.all_eq_true]
  constructor
  · rintro ⟨⟨hne, digits, fits⟩, rfl⟩
    exact ⟨fits, hne, digits, rfl⟩
  · rintro ⟨fits, hne, digits, rfl⟩
    exact ⟨⟨hne, digits, fits⟩, rfl⟩

theorem readSize?_eq_some_iff {t : Text} {n : Nat} : readSize? t = some n ↔ Spells .size t n := by
  rw [spells_size_iff]
  by_cases plus : t.head? = some '+'
  · obtain ⟨ds, rfl⟩ := List.head?_eq_some_iff.mp plus
    refine digits_eq_some_iff.trans (and_congr_right fun _ => exists_congr fun width => ?_)
    constructor
    · rintro rfl
      exact .inl rfl
    · rintro (h | h)
      · exact (List.cons.inj h).2
      · -- A number that is filled with zeros has no sign.
        have digit : Char.isDigit '+' := Text.isDigit_of_mem_zeroPadded (h ▸ List.mem_cons_self)
        exact absurd digit (by decide)
  · have whole : readSize? t = if t ≠ [] ∧ t.all Char.isDigit ∧ Text.toNat t ≤ maxSize then
        some (Text.toNat t) else none := by
      rw [readSize?]
      rintro ds rfl
      exact plus rfl
    rw [whole]
    refine digits_eq_some_iff.trans (and_congr_right fun _ => exists_congr fun width => ?_)
    constructor
    · exact .inr
    · rintro (rfl | h)
      · exact absurd rfl plus
      · exact h

theorem ofName?_eq_some_iff {t : Text} {c : Compliance} :
    Compliance.ofName? t = some c ↔ Spells .compliance t c := by
  constructor
  · intro h
    rw [Compliance.ofName?] at h
    have found := List.find?_some h
    have named : c.name = t := of_decide_eq_true found
    cases c with
    | none => exact named ▸ .notCompliant
    | full => exact named ▸ .compliant
  · intro h
    cases h with
    | notCompliant | compliant => rfl

theorem readList_eq_iff {t : Text} {v : Option Text} : readList t = v ↔ Spells .names t v := by
  constructor
  · rintro rfl
    rw [readList]
    by_cases none : t = []
    · rw [if_pos none]
      exact none ▸ .noNames
    · rw [if_neg none]
      exact .names none
  · intro h
    cases h with
    | noNames => rfl
    | names ht => exact if_neg ht

/-- A variable is read as what its text stands for. -/
theorem ofVariable?_eq_some_iff :
    ∀ {k : Kind} {t : Text} {v : k.Value}, k.ofVariable? t = some v ↔ k.Spells t v
  | .text, t, v => by
      constructor
      · rintro ⟨⟩
        exact .text t
      · rintro ⟨⟩
        rfl
  | .bool, _, _ => readBool?_eq_some_iff
  | .size, _, _ => readSize?_eq_some_iff
  | .compliance, _, _ => ofName?_eq_some_iff
  | .names, _, _ => Option.some_inj.trans readList_eq_iff

/-! ### Documents -/

/-- What a document has in the place of a setting stands for a value.  A compliance level may also
be the only key of a table, with nothing in it. -/
inductive Holds : (k : Kind) → Toml → k.Value → Prop where
  | text (t : Text) : Holds .text (.string t) t
  | bool (b : Bool) : Holds .bool (.boolean b) b
  | size {n : Nat} (fits : n < 2 ^ 64) : Holds .size (.integer n) n
  | compliance {t : Text} {c : Compliance} (named : Spells .compliance t c) :
      Holds .compliance (.string t) c
  | complianceTable {t : Text} {c : Compliance} (named : Spells .compliance t c)
      (outer inner : Toml.Origin) : Holds .compliance (.table outer [(t, .table inner [])]) c
  | complianceArray {t : Text} {c : Compliance} (named : Spells .compliance t c)
      (outer : Toml.Origin) (byHeaders : Bool) :
      Holds .compliance (.table outer [(t, .array byHeaders [])]) c
  | names (t : Text) : Holds .names (.string t) (some t)

theorem text?_eq_some_iff {v : Toml} {t : Text} : text? v = some t ↔ v = .string t := by
  cases v <;> simp [text?]

theorem size?_eq_some_iff {v : Toml} {n : Nat} : size? v = some n ↔ Holds .size v n := by
  constructor
  · intro h
    cases v with
    | integer i =>
        rw [size?, Option.ite_none_right_eq_some] at h
        obtain ⟨⟨least, most⟩, h⟩ := h
        obtain rfl : i.toNat = n := Option.some.inj h
        have fits : i.toNat < 2 ^ 64 := by
          rw [maxSize] at most
          omega
        have same : (i.toNat : Int) = i := Int.toNat_of_nonneg least
        rw [← same]
        exact .size fits
    | string _ | float _ | outOfRange _ | boolean _ | datetime _ | array _ _ | table _ _ => cases h
  · intro h
    cases h with
    | size fits =>
        have most : (n : Int) ≤ maxSize := by
          rw [maxSize]
          omega
        exact if_pos ⟨Int.natCast_nonneg n, most⟩

theorem compliance?_eq_some_iff {v : Toml} {c : Compliance} :
    compliance? v = some c ↔ Holds .compliance v c := by
  constructor
  · intro h
    rw [compliance?.eq_def] at h
    split at h
    · exact .compliance (ofName?_eq_some_iff.mp h)
    · exact .complianceTable (ofName?_eq_some_iff.mp h) _ _
    · exact .complianceArray (ofName?_eq_some_iff.mp h) _ _
    · cases h
  · intro h
    cases h with
    | compliance named | complianceTable named | complianceArray named =>
        exact ofName?_eq_some_iff.mpr named

/-- What a document has is read as what it stands for. -/
theorem ofToml?_eq_some_iff :
    ∀ {k : Kind} {value : Toml} {v : k.Value}, k.ofToml? value = some v ↔ k.Holds value v
  | .text, value, t => by
      refine text?_eq_some_iff.trans ⟨?_, ?_⟩
      · rintro rfl
        exact .text t
      · rintro ⟨⟩
        rfl
  | .bool, value, b => by
      constructor
      · intro h
        cases value <;> cases h
        exact .bool b
      · rintro ⟨⟩
        rfl
  | .size, _, _ => size?_eq_some_iff
  | .compliance, _, _ => compliance?_eq_some_iff
  | .names, value, v => by
      constructor
      · intro h
        obtain ⟨t, text, rfl⟩ := Option.map_eq_some_iff.mp h
        obtain rfl := text?_eq_some_iff.mp text
        exact .names t
      · rintro ⟨⟩
        rfl

end Kind

end EventLog.Settings
