import EventLog.Proofs.Json.Reading
import EventLog.Proofs.Json.Tokens
import Mathlib.Data.List.Forall2

/-!
# The grammar of JSON

What a JSON text is, and which value it has, by the grammar of RFC 8259.  An object has its members
in the order of the text, repeated ones included.  Of a number the grammar gives the form only, and
its value is `JsonNumber.read?`.

* `JsonToken.read_of_element`: a text of the grammar has the tokens of its value.
* `Grammar.Element.unique`: such a text has no other value.
* `Grammar.Element.read`: the reader finds the value, unless it is nested too deeply.
-/

namespace EventLog.Json

/-! ### Texts and values -/

namespace Grammar

/-- Spaces, tabs, line feeds and carriage returns, perhaps none at all. -/
def Blanks (t : Text) : Prop := ∀ c ∈ t, c ∈ [' ', '\t', '\n', '\r']

/-- The four hexadecimal digits of a number. -/
structure CodeUnit (digits : Text) (n : Nat) : Prop where
  length : digits.length = 4
  all : digits.all Text.isHexDigit
  value : Text.ofHex digits = n

/-- The letters that stand for a character behind a backslash. -/
def escapes : List (Char × Char) :=
  [('"', '"'), ('\\', '\\'), ('/', '/'), ('b', '\x08'), ('f', '\x0c'), ('n', '\n'), ('r', '\r'),
    ('t', '\t')]

/-- The ways to write a character of a string.  One beyond the first 65536 may be written as two
surrogates. -/
inductive Spelling : Text → Char → Prop where
  | unescaped {c : Char} (quote : c ≠ '"') (backslash : c ≠ '\\') (control : 0x20 ≤ c.toNat) :
      Spelling [c] c
  | escaped {d c : Char} (letter : (d, c) ∈ escapes) : Spelling ['\\', d] c
  | unit {ds : Text} {c : Char} (digits : CodeUnit ds c.toNat) : Spelling (['\\', 'u'] ++ ds) c
  | surrogates {ds ds' : Text} {high low : Nat} {c : Char} (digits : CodeUnit ds high)
      (digits' : CodeUnit ds' low) (range : 0xD800 ≤ high ∧ high < 0xDC00)
      (range' : 0xDC00 ≤ low ∧ low < 0xE000)
      (value : c.toNat = 0x10000 + (high - 0xD800) * 0x400 + (low - 0xDC00)) :
      Spelling (['\\', 'u'] ++ ds ++ (['\\', 'u'] ++ ds')) c

/-- The characters of a string, one after the other. -/
inductive Content : Text → Text → Prop where
  | nil : Content [] []
  | cons {t u : Text} {c : Char} {s : Text} (first : Spelling t c) (further : Content u s) :
      Content (t ++ u) (c :: s)

/-- A string between its quotes. -/
inductive Quoted : Text → Text → Prop where
  | intro {t s : Text} (content : Content t s) : Quoted ('"' :: t ++ ['"']) s

/-- At least one decimal digit. -/
def Digits (t : Text) : Prop := t ≠ [] ∧ ∀ c ∈ t, c.isDigit

/-- The whole part of a number: a single zero, or digits of which the first is not zero. -/
def Whole (t : Text) : Prop := t = ['0'] ∨ Digits t ∧ t.head? ≠ some '0'

/-- A point and digits behind it, or nothing. -/
def Fraction (t : Text) : Prop := t = [] ∨ ∃ ds, Digits ds ∧ t = '.' :: ds

/-- A power of ten, or nothing. -/
def Power (t : Text) : Prop :=
  t = [] ∨ ∃ letter ∈ ['e', 'E'], ∃ sign ∈ [[], ['+'], ['-']], ∃ ds, Digits ds ∧
    t = letter :: sign ++ ds

/-- A number. -/
def Number (t : Text) : Prop :=
  ∃ minus ∈ [[], ['-']], ∃ whole fraction power, Whole whole ∧ Fraction fraction ∧ Power power ∧
    t = minus ++ whole ++ fraction ++ power

/-- The name of a member, with blanks around it. -/
inductive Name : Text → Text → Prop where
  | intro {w t w' s : Text} (before : Blanks w) (quoted : Quoted t s) (behind : Blanks w') :
      Name (w ++ t ++ w') s

/-- Items with commas between them, at least one. -/
inductive Listed {α : Type} (item : Text → α → Prop) : Text → List α → Prop where
  | last {t : Text} {a : α} (only : item t a) : Listed item t [a]
  | cons {t u : Text} {a : α} {as : List α} (first : item t a) (further : Listed item u as) :
      Listed item (t ++ ',' :: u) (a :: as)

mutual

/-- A value. -/
inductive Value : Text → Json → Prop where
  | null : Value "null" .null
  | true : Value "true" (.bool true)
  | false : Value "false" (.bool false)
  | number {t : Text} {n : JsonNumber} (form : Number t) (value : JsonNumber.read? t = some n) :
      Value t (.number n)
  | string {t s : Text} (quoted : Quoted t s) : Value t (.string s)
  | emptyArray {w : Text} (blanks : Blanks w) : Value ('[' :: w ++ [']']) (.array [])
  | array {t : Text} {vs : List Json} (items : Listed Element t vs) :
      Value ('[' :: t ++ [']']) (.array vs)
  | emptyObject {w : Text} (blanks : Blanks w) : Value ('\x7b' :: w ++ ['\x7d']) (.object [])
  | object {t : Text} {ms : List (Text × Json)} (members : Listed Member t ms) :
      Value ('\x7b' :: t ++ ['\x7d']) (.object ms)

/-- A value with blanks around it.  This is what a whole text is. -/
inductive Element : Text → Json → Prop where
  | intro {w t w' : Text} {v : Json} (before : Blanks w) (value : Value t v)
      (behind : Blanks w') : Element (w ++ t ++ w') v

/-- A name and a value. -/
inductive Member : Text → Text × Json → Prop where
  | intro {k t name : Text} {v : Json} (named : Name k name) (element : Element t v) :
      Member (k ++ ':' :: t) (name, v)

end

/-! ### Strings -/

section

variable {P : Text → Prop} (char : ∀ c t, c ≠ '"' → c ≠ '\\' → P t → P (c :: t))

include char

theorem CodeUnit.made {ds t : Text} {n : Nat} (h : CodeUnit ds n) (ht : P t) : P (ds ++ t) := by
  have digit : ∀ c ∈ ds, c ≠ '"' ∧ c ≠ '\\' := fun c hc => by
    have hex := List.all_eq_true.mp h.all c hc
    constructor <;>
    · rintro rfl
      exact absurd hex (by decide)
  clear h
  induction ds with
  | nil => exact ht
  | cons c ds ih =>
      rw [List.forall_mem_cons] at digit
      exact char c _ digit.1.1 digit.1.2 (ih digit.2)

variable (pair : ∀ c t, P t → P ('\\' :: c :: t))

include pair

theorem Spelling.made {t u : Text} {c : Char} (h : Spelling t c) (hu : P u) : P (t ++ u) := by
  cases h with
  | unescaped quote backslash _ => exact char c u quote backslash hu
  | escaped _ => exact pair _ u hu
  | unit ds => exact pair 'u' _ (ds.made char hu)
  | surrogates ds ds' _ _ _ =>
      rw [List.append_assoc]
      exact pair 'u' _ (ds.made char (pair 'u' _ (ds'.made char hu)))

/-- **How a string is made**: of characters other than quotes and backslashes, and of backslashes
with a character behind them. -/
theorem Content.made (nil : P []) {t s : Text} (h : Content t s) : P t := by
  induction h with
  | nil => exact nil
  | cons first _ ih => exact first.made char pair ih

end

/-! ### Blanks -/

theorem blanks_nil : Blanks [] := fun _ h => nomatch h

theorem Blanks.append {w w' : Text} (h : Blanks w) (h' : Blanks w') : Blanks (w ++ w') :=
  List.forall_mem_append.mpr ⟨h, h'⟩

theorem Name.of_quoted {t s : Text} (h : Quoted t s) : Name t s := by
  simpa using Name.intro blanks_nil h blanks_nil

theorem Element.of_value {t : Text} {v : Json} (h : Value t v) : Element t v := by
  simpa using Element.intro blanks_nil h blanks_nil

section

variable {w t : Text} (blanks : Blanks w)

include blanks

theorem Name.pad {s : Text} (h : Name t s) : Name (w ++ t) s := by
  obtain ⟨before, quoted, behind⟩ := h
  simpa using Name.intro (blanks.append before) quoted behind

theorem Element.pad {v : Json} (h : Element t v) : Element (w ++ t) v := by
  obtain ⟨before, value, behind⟩ := h
  simpa using Element.intro (blanks.append before) value behind

theorem Member.pad {m : Text × Json} (h : Member t m) : Member (w ++ t) m := by
  obtain ⟨named, element⟩ := h
  simpa using Member.intro (named.pad blanks) element

end

/-! ### Items side by side -/

section

variable {α : Type} {item : Text → α → Prop} {w : Text}
  (padded : ∀ {t : Text} {a : α}, item t a → item (w ++ t) a)

include padded

theorem Listed.pad {t : Text} {as : List α} (h : Listed item t as) : Listed item (w ++ t) as := by
  cases h with
  | last only => exact .last (padded only)
  | cons first further =>
      rw [← List.append_assoc]
      exact .cons (padded first) further

/-- Items with a comma and blanks between them. -/
theorem listed_intercalate {ts : List Text} {as : List α} (items : List.Forall₂ item ts as)
    (h : ts ≠ []) : Listed item ((',' :: w).intercalate ts) as := by
  induction items with
  | nil => exact absurd rfl h
  | cons first further ih =>
      cases further with
      | nil =>
          rw [List.intercalate_singleton]
          exact .last first
      | cons second further =>
          rw [List.intercalate_cons_cons, List.append_assoc, List.cons_append]
          exact .cons first ((ih (List.cons_ne_nil _ _)).pad padded)

end

/-- Items with commas and blanks between them are an array, and no items as well. -/
theorem Value.array_intercalate {w : Text} (blanks : Blanks w) {ts : List Text} {vs : List Json}
    (items : List.Forall₂ Element ts vs) :
    Value ('[' :: (',' :: w).intercalate ts ++ [']']) (.array vs) := by
  cases items with
  | nil => exact .emptyArray blanks_nil
  | cons first further =>
      exact .array (listed_intercalate (.pad blanks) (.cons first further) (List.cons_ne_nil _ _))

/-- Members with commas and blanks between them are an object, and no members as well. -/
theorem Value.object_intercalate {w : Text} (blanks : Blanks w) {ts : List Text}
    {ms : List (Text × Json)} (members : List.Forall₂ Member ts ms) :
    Value ('\x7b' :: (',' :: w).intercalate ts ++ ['\x7d']) (.object ms) := by
  cases members with
  | nil => exact .emptyObject blanks_nil
  | cons first further =>
      exact .object (listed_intercalate (.pad blanks) (.cons first further) (List.cons_ne_nil _ _))

end Grammar

end EventLog.Json

/-! ### Tokens -/

namespace EventLog.JsonToken

open Json Json.Grammar

theorem begin_blank {c : Char} (h : c ∈ [' ', '\t', '\n', '\r']) :
    begin c = some ([], .between) := by
  simp only [List.mem_cons, List.not_mem_nil, or_false] at h
  rcases h with rfl | rfl | rfl | rfl <;> rfl

theorem lexes_blanks {w : Text} (h : Blanks w) : Lexes w [] := by
  induction w with
  | nil => exact .nil
  | cons c w ih =>
      rw [Blanks, List.forall_mem_cons] at h
      exact (lexes_char (begin_blank h.1)).append (ih h.2)

/-! #### Strings -/

theorem escaped?_of_mem {d c : Char} (h : (d, c) ∈ escapes) : escaped? d = some c ∧ d ≠ 'u' := by
  have all : ∀ p ∈ escapes, escaped? p.1 = some p.2 ∧ p.1 ≠ 'u' := by decide
  exact all (d, c) h

/-- Four digits are read as a code unit. -/
theorem readFrom_codeUnit {g ds : Text} {high : Option Nat} {n : Nat} {s : State}
    (digits : CodeUnit ds n) (hs : codeUnit g high n = some s) (rest : Text) :
    readFrom (.unicode g high []) (ds ++ rest) = readFrom s rest := by
  obtain ⟨length, all, rfl⟩ := digits
  match ds, length with
  | [a, b, c, d], _ => exact readFrom_unicode all hs rest

/-- A code unit that is a character by itself is read as this character. -/
theorem codeUnit_char (g : Text) (c : Char) :
    codeUnit g none c.toNat = some (.string (c :: g)) := by
  -- A character is no surrogate.
  have valid : c.toNat < 0xD800 ∨ 0xDFFF < c.toNat ∧ c.toNat < 0x110000 := c.valid
  have high : ¬ (0xD800 ≤ c.toNat ∧ c.toNat < 0xDC00) := by omega
  have low : ¬ (0xDC00 ≤ c.toNat ∧ c.toNat < 0xE000) := by omega
  simp only [codeUnit, Bool.and_eq_true, decide_eq_true_eq, if_neg high, if_neg low,
    Char.ofNat_toNat]

/-- A high surrogate and a low one are read as the character that they stand for. -/
theorem codeUnit_surrogates {g : Text} {high low : Nat} {c : Char}
    (range : 0xD800 ≤ high ∧ high < 0xDC00) (range' : 0xDC00 ≤ low ∧ low < 0xE000)
    (value : c.toNat = 0x10000 + (high - 0xD800) * 0x400 + (low - 0xDC00)) :
    codeUnit g none high = some (.high g high) ∧
      codeUnit g (some high) low = some (.string (c :: g)) := by
  simp only [codeUnit, Bool.and_eq_true, decide_eq_true_eq, if_pos range, if_pos range', ← value,
    Char.ofNat_toNat, and_self]

/-- However a character is written, the reader takes it for this character. -/
theorem spells_spelling {t : Text} {c : Char} (h : Spelling t c) : Spells t c := by
  have backslash (g : Text) : step (.string g) '\\' = some ([], .escape g) := rfl
  have letter (g : Text) : step (.escape g) 'u' = some ([], .unicode g none []) := rfl
  cases h with
  | unescaped quote backslash control => exact spells_self quote backslash (Nat.not_lt.mpr control)
  | escaped letter =>
      obtain ⟨h, hu⟩ := escaped?_of_mem letter
      exact spells_escape h hu
  | unit digits =>
      intro g rest
      exact (readFrom_silent (backslash g) _).trans
        ((readFrom_silent (letter g) _).trans (readFrom_codeUnit digits (codeUnit_char g c) rest))
  | @surrogates ds ds' high low _ digits digits' range range' value =>
      intro g rest
      obtain ⟨first, second⟩ := codeUnit_surrogates (g := g) range range' value
      have backslash' : step (.high g high) '\\' = some ([], .highEscape g high) := rfl
      have letter' : step (.highEscape g high) 'u' = some ([], .unicode g (some high) []) := rfl
      rw [List.append_assoc, List.append_assoc, List.append_assoc]
      exact (readFrom_silent (backslash g) _).trans ((readFrom_silent (letter g) _).trans
        ((readFrom_codeUnit digits first _).trans ((readFrom_silent backslash' _).trans
          ((readFrom_silent letter' _).trans (readFrom_codeUnit digits' second rest)))))

theorem readFrom_content {t s : Text} (h : Content t s) (g rest : Text) :
    readFrom (.string g) (t ++ rest) = readFrom (.string (s.reverse ++ g)) rest := by
  induction h generalizing g with
  | nil => rfl
  | cons first _ ih =>
      rw [List.append_assoc, spells_spelling first, ih, List.reverse_cons, List.append_assoc]
      rfl

theorem lexes_quoted {t s : Text} (h : Quoted t s) : Lexes t [.text s] := by
  obtain ⟨content⟩ := h
  intro rest
  have opening : step .between '"' = some ([], .string []) := rfl
  have closing (g : Text) : step (.string g) '"' = some ([.text g.reverse], .between) := rfl
  rw [List.append_assoc, List.cons_append, readFrom_silent opening, readFrom_content content,
    List.append_nil, List.singleton_append, readFrom_cons, closing]
  simp

theorem lexes_name {t s : Text} (h : Name t s) : Lexes t [.text s] := by
  obtain ⟨before, quoted, behind⟩ := h
  exact ((lexes_blanks before).append (lexes_quoted quoted)).append (lexes_blanks behind)

/-! #### Numbers and words -/

theorem ends_blanks {w rest : Text} (h : Blanks w) (hr : Ends rest) : Ends (w ++ rest) := by
  cases w with
  | nil => exact hr
  | cons c w => exact ends_cons (begin_blank (h c List.mem_cons_self)) (w ++ rest)

theorem inNumber_of_digits {t : Text} (h : Digits t) : ∀ c ∈ t, inNumber c = true :=
  fun c hc => by simp [inNumber, h.2 c hc]

theorem whole_digits {t : Text} (h : Whole t) : Digits t := by
  rcases h with rfl | ⟨digits, -⟩
  · exact ⟨List.cons_ne_nil '0' [], List.forall_mem_singleton.mpr rfl⟩
  · exact digits

/-- A number begins with a digit or a minus, and the characters behind it belong to it. -/
theorem shape_of_number {t : Text} (h : Number t) :
    ∃ c u, t = c :: u ∧ (c.isDigit ∨ c = '-') ∧ ∀ c ∈ u, inNumber c = true := by
  obtain ⟨minus, hminus, whole, fraction, power, hwhole, hfraction, hpower, rfl⟩ := h
  have digits := whole_digits hwhole
  have fraction_in : ∀ c ∈ fraction, inNumber c = true := by
    rcases hfraction with rfl | ⟨ds, hds, rfl⟩
    · simp
    · exact List.forall_mem_cons.mpr ⟨by decide, inNumber_of_digits hds⟩
  have power_in : ∀ c ∈ power, inNumber c = true := by
    rcases hpower with rfl | ⟨letter, hletter, sign, hsign, ds, hds, rfl⟩
    · simp
    · have letters : ∀ c ∈ ['e', 'E'], inNumber c = true := by simp [inNumber]
      have signs : ∀ s ∈ [[], ['+'], ['-']], ∀ c ∈ s, inNumber c = true := by
        simp [inNumber]
      rw [List.forall_mem_append, List.forall_mem_cons]
      exact ⟨⟨letters letter hletter, signs sign hsign⟩, inNumber_of_digits hds⟩
  obtain ⟨c, u, rfl⟩ := List.exists_cons_of_ne_nil digits.1
  have whole_in := inNumber_of_digits digits
  rw [List.forall_mem_cons] at whole_in
  simp only [List.mem_cons, List.not_mem_nil, or_false] at hminus
  rcases hminus with rfl | rfl
  · refine ⟨c, u ++ fraction ++ power, rfl, .inl (digits.2 c List.mem_cons_self), ?_⟩
    simp only [List.forall_mem_append]
    exact ⟨⟨whole_in.2, fraction_in⟩, power_in⟩
  · refine ⟨'-', c :: u ++ fraction ++ power, rfl, .inr rfl, ?_⟩
    simp only [List.forall_mem_append, List.forall_mem_cons]
    exact ⟨⟨whole_in, fraction_in⟩, power_in⟩

theorem lexesBefore_number {t : Text} {n : JsonNumber} (form : Number t)
    (value : JsonNumber.read? t = some n) : LexesBefore t [.scalar (.number n)] := by
  obtain ⟨c, u, rfl, first, further⟩ := shape_of_number form
  exact lexesBefore_scalar gathers_number (begin_number first) further (by simp [close, value])

/-- One of the three words. -/
theorem lexesBefore_word {c : Char} {t : Text} {v : Json} (first : begin c = some ([], .word [c]))
    (further : t.all inWord) (value : ofWord? (c :: t) = some v) :
    LexesBefore (c :: t) [.scalar v] :=
  lexesBefore_scalar gathers_word first (List.all_eq_true.mp further) (by simp [close, value])

/-! #### Values -/

/-- A text between two characters that are tokens by themselves. -/
theorem lexes_between {c d : Char} {k l : JsonToken} {t : Text} {ks : List JsonToken}
    (hc : begin c = some ([k], .between)) (hd : begin d = some ([l], .between))
    (h : LexesBefore t ks) : Lexes (c :: t ++ [d]) (k :: ks ++ [l]) := by
  intro rest
  have inner : readFrom .between (t ++ d :: rest) =
      (readFrom .between (d :: rest)).map (ks ++ ·) := h (d :: rest) (ends_cons hd rest)
  have opening := lexes_char hc (t ++ d :: rest)
  have closing := lexes_char hd rest
  rw [List.singleton_append] at opening closing
  rw [List.append_assoc, List.cons_append, List.singleton_append, opening, inner, closing,
    map_append_map, map_append_map]
  simp

theorem lexesBefore_padded {w t w' : Text} {ks : List JsonToken} (before : Blanks w)
    (h : LexesBefore t ks) (behind : Blanks w') : LexesBefore (w ++ t ++ w') ks := by
  have padded := ((lexes_blanks before).append_before h).append (lexes_blanks behind).before
    fun rest => ends_blanks behind
  rwa [List.nil_append, List.append_nil] at padded

/-- A text, a comma, and more of the kind. -/
theorem lexesBefore_comma {t u : Text} {ks ls : List JsonToken} (ht : LexesBefore t ks)
    (hu : LexesBefore u ls) : LexesBefore (t ++ ',' :: u) (ks ++ [.comma] ++ ls) := by
  have comma : Lexes [','] [.comma] := lexes_char rfl
  rw [List.append_assoc]
  exact ht.append (comma.append_before hu) fun rest _ => ends_cons (c := ',') rfl (u ++ rest)

theorem lexesBefore_member {k t name : Text} {ks : List JsonToken} (named : Name k name)
    (h : LexesBefore t ks) : LexesBefore (k ++ ':' :: t) (.text name :: .colon :: ks) := by
  have colon : Lexes [':'] [.colon] := lexes_char rfl
  exact (lexes_name named).append_before (colon.append_before h)

/-- Items are lexed with commas between them. -/
theorem lexesBefore_listed {α : Type} {item : Text → α → Prop} {tokens : α → List JsonToken}
    {t : Text} {as : List α} (listed : Listed item t as)
    (h : ∀ a ∈ as, ∀ {t}, item t a → LexesBefore t (tokens a)) :
    LexesBefore t ([JsonToken.comma].intercalate (as.map tokens)) := by
  induction listed with
  | last only =>
      rw [List.map_singleton, List.intercalate_singleton]
      exact h _ List.mem_cons_self only
  | cons first further ih =>
      rw [List.forall_mem_cons] at h
      have ends := ih h.2
      -- Behind a comma stands one item at least.
      cases further <;>
      · rw [List.map_cons, List.map_cons, List.intercalate_cons_cons, ← List.map_cons]
        exact lexesBefore_comma (h.1 first) ends

/-- A value has its own tokens, if it ends: only a number or a word needs that. -/
theorem lexesBefore_value {t : Text} {v : Json} (h : Grammar.Value t v) :
    LexesBefore t v.tokens := by
  induction v using Json.induction generalizing t with
  | null =>
      cases h
      exact lexesBefore_word rfl (by decide) rfl
  | bool b =>
      cases h <;> exact lexesBefore_word rfl (by decide) rfl
  | number n =>
      cases h with | number form value => exact lexesBefore_number form value
  | string s =>
      cases h with | string quoted => exact (lexes_quoted quoted).before
  | array vs ih =>
      cases h with
      | emptyArray blanks => exact (lexes_between rfl rfl (lexes_blanks blanks).before).before
      | array items =>
          rw [tokens, itemTokens_eq_map]
          refine (lexes_between rfl rfl (lexesBefore_listed items ?_)).before
          rintro v hv _ ⟨before, value, behind⟩
          exact lexesBefore_padded before (ih v hv value) behind
  | object ms ih =>
      cases h with
      | emptyObject blanks => exact (lexes_between rfl rfl (lexes_blanks blanks).before).before
      | object members =>
          rw [tokens, memberTokens_eq_map]
          refine (lexes_between rfl rfl (lexesBefore_listed members ?_)).before
          rintro ⟨name, v⟩ hm _ ⟨named, before, value, behind⟩
          exact lexesBefore_member named (lexesBefore_padded before (ih _ hm value) behind)

/-- A text of the grammar has the tokens of its value. -/
theorem read_of_element {t : Text} {v : Json} (h : Element t v) :
    JsonToken.read t = some v.tokens := by
  obtain ⟨before, value, behind⟩ := h
  have whole := lexesBefore_padded before (lexesBefore_value value) behind [] (.inl rfl)
  simpa [JsonToken.read, readFrom, close] using whole

end EventLog.JsonToken

namespace EventLog.Json.Grammar.Element

variable {t : Text} {v v' : Json}

/-- **A text has one value at most.** -/
theorem unique (h : Element t v) (h' : Element t v') : v = v' := by
  have same := (JsonToken.read_of_element h).symm.trans (JsonToken.read_of_element h')
  exact tokens_injective (Option.some.inj same)

/-- **A text of the grammar is read as its value**, unless that is nested too deeply. -/
theorem read (h : Element t v) (depth : v.depth ≤ maxDepth) : Json.read t = some v := by
  rw [Json.read, JsonToken.read_of_element h]
  exact ofTokens?_tokens depth

end EventLog.Json.Grammar.Element
