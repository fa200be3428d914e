import EventLog.Json.Token

/-!
# Texts and their tokens

A text has tokens of its own (`Lexes`) if they are read from it whatever follows.  Such texts may be
put side by side, and then have their tokens side by side.  Punctuation and strings are of this
kind.  Numbers and words are not, for what follows may belong to them: they have their tokens if the
text ends there, or goes on with punctuation or a blank (`LexesBefore`).

* `lexesBefore_scalar`: a number or a word that ends is one token.
-/

namespace EventLog.JsonToken

theorem readFrom_cons (s : State) (c : Char) (t : Text) :
    readFrom s (c :: t) =
      (step s c).bind fun (done, s') => (readFrom s' t).map (done ++ ·) := by
  rw [readFrom]
  cases step s c with
  | none => rfl
  | some r => exact Option.map_eq_bind.symm

/-- A character that finishes no token. -/
theorem readFrom_silent {s u : State} {c : Char} (h : step s c = some ([], u)) (t : Text) :
    readFrom s (c :: t) = readFrom u t := by
  simp [readFrom_cons, h]

theorem map_append_map (o : Option (List JsonToken)) (ks ls : List JsonToken) :
    (o.map (ls ++ ·)).map (ks ++ ·) = o.map (ks ++ ls ++ ·) := by
  cases o <;> simp

/-- The tokens of a text stand in front of the tokens of what follows it. -/
def Lexes (t : Text) (tokens : List JsonToken) : Prop :=
  ∀ rest, readFrom .between (t ++ rest) = (readFrom .between rest).map (tokens ++ ·)

namespace Lexes

theorem nil : Lexes [] [] := fun rest => by simp

theorem append {t u : Text} {ks ls : List JsonToken} (ht : Lexes t ks) (hu : Lexes u ls) :
    Lexes (t ++ u) (ks ++ ls) := by
  intro rest
  rw [List.append_assoc, ht, hu, map_append_map]

/-- A text that has its own tokens, alone. -/
theorem read {t : Text} {tokens : List JsonToken} (h : Lexes t tokens) :
    JsonToken.read t = some tokens := by
  have := h []
  simpa [JsonToken.read, readFrom, close] using this

end Lexes

/-- A character that is a token by itself, or a blank. -/
theorem lexes_char {c : Char} {tokens : List JsonToken} (h : begin c = some (tokens, .between)) :
    Lexes [c] tokens := by
  intro rest
  simp [readFrom_cons, step, h]

/-! ### Strings -/

/-- Inside a string, a text stands for a character. -/
def Spells (t : Text) (c : Char) : Prop :=
  ∀ g rest, readFrom (.string g) (t ++ rest) = readFrom (.string (c :: g)) rest

theorem spells_self {c : Char} (hq : c ≠ '"') (hb : c ≠ '\\') (hc : ¬ c.toNat < 0x20) :
    Spells [c] c := by
  intro g rest
  exact readFrom_silent (by simp [step, stringStep, hq, hb, hc]) rest

/-- A character behind a backslash. -/
theorem spells_escape {c d : Char} (h : escaped? d = some c) (hu : d ≠ 'u') :
    Spells ['\\', d] c := by
  intro g rest
  have backslash : step (.string g) '\\' = some ([], .escape g) := rfl
  have letter : step (.escape g) d = some ([], .string (c :: g)) := by
    simp [step, stringStep, hu, h]
  exact (readFrom_silent backslash _).trans (readFrom_silent letter rest)

/-- Four hexadecimal digits are read as a code unit. -/
theorem readFrom_unicode {g : Text} {high : Option Nat} {a b c d : Char} {s : State}
    (hd : [a, b, c, d].all Text.isHexDigit)
    (hs : codeUnit g high (Text.ofHex [a, b, c, d]) = some s) (rest : Text) :
    readFrom (.unicode g high []) (a :: b :: c :: d :: rest) = readFrom s rest := by
  simp only [List.all_cons, Bool.and_eq_true] at hd
  obtain ⟨ha, hb, hc, hd, -⟩ := hd
  rw [readFrom_silent (u := .unicode g high [a]), readFrom_silent (u := .unicode g high [a, b]),
    readFrom_silent (u := .unicode g high [a, b, c]), readFrom_silent (u := s)]
  · simp [step, stringStep, hd, hs]
  · simp [step, stringStep, hc]
  · simp [step, stringStep, hb]
  · simp [step, stringStep, ha]

/-! ### Numbers and words -/

/-- What may follow a number or a word: the end of the text, or a character that is a token by
itself or a blank. -/
def Ends (rest : Text) : Prop :=
  rest = [] ∨ ∃ c t tokens, rest = c :: t ∧ begin c = some (tokens, .between)

theorem ends_cons {c : Char} {tokens : List JsonToken} (h : begin c = some (tokens, .between))
    (t : Text) : Ends (c :: t) :=
  .inr ⟨c, t, tokens, rfl, h⟩

/-- The tokens of a text stand in front of the tokens of what follows it, if it ends there. -/
def LexesBefore (t : Text) (tokens : List JsonToken) : Prop :=
  ∀ rest, Ends rest → readFrom .between (t ++ rest) = (readFrom .between rest).map (tokens ++ ·)

theorem Lexes.before {t : Text} {tokens : List JsonToken} (h : Lexes t tokens) :
    LexesBefore t tokens := fun rest _ => h rest

theorem LexesBefore.append {t u : Text} {ks ls : List JsonToken} (ht : LexesBefore t ks)
    (hu : LexesBefore u ls) (ends : ∀ rest, Ends rest → Ends (u ++ rest)) :
    LexesBefore (t ++ u) (ks ++ ls) := by
  intro rest hr
  rw [List.append_assoc, ht _ (ends rest hr), hu rest hr, map_append_map]

theorem Lexes.append_before {t u : Text} {ks ls : List JsonToken} (ht : Lexes t ks)
    (hu : LexesBefore u ls) : LexesBefore (t ++ u) (ks ++ ls) := by
  intro rest hr
  rw [List.append_assoc, ht, hu rest hr, map_append_map]

/-- No character that is a token by itself, and no blank, belongs to a number or a word. -/
theorem apart_of_begin {c : Char} {tokens : List JsonToken}
    (h : begin c = some (tokens, .between)) : inNumber c = false ∧ inWord c = false := by
  revert h
  fun_cases begin c with
  | case12 | case13 | case14 => exact fun h => nomatch h
  | _ => exact fun _ => by decide

theorem begin_number {c : Char} (h : c.isDigit ∨ c = '-') : begin c = some ([], .number [c]) := by
  have hc : (c.isDigit || c == '-') = true := by simpa using h
  revert hc
  fun_cases begin c with
  | case12 => exact fun _ => rfl
  | case13 | case14 => exact fun hc => absurd hc ‹_›
  | _ => exact fun hc => nomatch hc

/-- How the characters of a number or a word are gathered: one that belongs to it continues it, any
other ends it and is the first of what follows, and none that stands by itself belongs to it. -/
structure Gathers (gathering : Text → State) (inside : Char → Bool) : Prop where
  continues : ∀ g c, inside c = true → step (gathering g) c = some ([], gathering (c :: g))
  stops : ∀ g c, inside c = false → step (gathering g) c = do
    let done ← close (gathering g)
    let (more, s) ← begin c
    return (done ++ more, s)
  apart : ∀ c tokens, begin c = some (tokens, .between) → inside c = false

theorem gathers_number : Gathers .number inNumber where
  continues g c hc := by simp [step, hc]
  stops g c hc := by simp [step, hc]
  apart _ _ h := (apart_of_begin h).1

theorem gathers_word : Gathers .word inWord where
  continues g c hc := by simp [step, hc]
  stops g c hc := by simp [step, hc]
  apart _ _ h := (apart_of_begin h).2

section

variable {gathering : Text → State} {inside : Char → Bool}

theorem readFrom_gathering (gathers : Gathers gathering inside) {t : Text}
    (ht : ∀ c ∈ t, inside c = true) (g rest : Text) :
    readFrom (gathering g) (t ++ rest) = readFrom (gathering (t.reverse ++ g)) rest := by
  induction t generalizing g with
  | nil => rfl
  | cons c t ih =>
      rw [List.forall_mem_cons] at ht
      rw [List.cons_append, readFrom_silent (gathers.continues g c ht.1), ih ht.2,
        List.reverse_cons, List.append_assoc]
      rfl

/-- A number or a word that ends is one token. -/
theorem lexesBefore_scalar (gathers : Gathers gathering inside) {c : Char} {t : Text} {v : Json}
    (first : begin c = some ([], gathering [c])) (ht : ∀ c ∈ t, inside c = true)
    (value : close (gathering (c :: t).reverse) = some [.scalar v]) :
    LexesBefore (c :: t) [.scalar v] := by
  intro rest hr
  have begun : step .between c = some ([], gathering [c]) := first
  rw [List.reverse_cons] at value
  rw [List.cons_append, readFrom_silent begun, readFrom_gathering gathers ht]
  rcases hr with rfl | ⟨d, u, tokens, rfl, hd⟩
  · rw [readFrom, readFrom, value]
    rfl
  · -- What ends the token is read as it is read alone.
    have between : step .between d = some (tokens, .between) := hd
    rw [readFrom_cons, readFrom_cons, gathers.stops _ _ (gathers.apart d tokens hd), value,
      between, hd]
    exact (map_append_map (readFrom .between u) [.scalar v] tokens).symm

end

end EventLog.JsonToken
