import EventLog.Toml.Quoted
import EventLog.Toml.Writer

/-!
# TOML strings, written and read

A text is written as the plainest kind of string that can hold it.  Whichever that is, the text is
read back from it (`any_stringText`), as long as no quote follows.

* With escapes, what is written for a character stands for it whatever follows (`Spells`).  Quotes
  apart, for on several lines up to two of them stand in a row as they are, and only what comes next
  tells whether they belong to the text: the reader counts them (`readFrom_lines`).
* Without escapes, a text on several lines has no three quotes in a row, and again the reader counts
  (`literalLines_append`).
-/

namespace EventLog.Toml.Quoted

open Writer

variable {multiline : Bool} {g rest : Text}

theorem readFrom_go {s u : State} {c : Char} {t added : Text}
    (h : move multiline s c t = .go added u) (g : Text) :
    readFrom multiline s g (c :: t) = readFrom multiline u (added ++ g) t := by
  rw [readFrom, h]

/-- What stands for itself is neither a control character nor the end of a line. -/
theorem isPlain_of_not_isControl {c : Char} (hc : isControl c = false) (hn : c ≠ '\n') :
    isPlain c := by
  by_cases ht : c = '\t'
  · rw [ht]
    rfl
  · simp [isControl, ht, hn] at hc
    simp [isPlain, hc]

/-! ### Escapes -/

/-- Between two double quotes, a text stands for a character, whatever follows it. -/
structure Spells (multiline : Bool) (written : Text) (c : Char) : Prop where
  front : ∃ d ds, written = d :: ds ∧ d ≠ '"' ∧ (isPlain d ∨ c = '\n')
  read : ∀ g rest, readFrom multiline .plain g (written ++ rest) =
    readFrom multiline .plain (c :: g) rest

theorem spells_self {c : Char} (hq : c ≠ '"') (hb : c ≠ '\\') (hc : isPlain c) :
    Spells multiline [c] c where
  front := ⟨c, [], rfl, hq, .inl hc⟩
  read g rest := by
    have plain : move multiline .plain c rest = .go [c] .plain := by
      simp [move, plainMove, hq, hb, hc]
    exact readFrom_go plain g

theorem spells_lineFeed : Spells true ['\n'] '\n' where
  front := ⟨'\n', [], rfl, by decide, .inr rfl⟩
  read g rest := by
    have lineFeed : move true .plain '\n' rest = .go ['\n'] .plain := rfl
    exact readFrom_go lineFeed g

theorem isSpace_of_escaped? {c d : Char} (h : escaped? d = some c) (t : Text) :
    isSpace d t = false := by
  revert h
  fun_cases escaped? d with
  | case9 => exact nofun
  | _ => exact fun _ => rfl

theorem move_backslash (t : Text) : move multiline .plain '\\' t = .go [] .escape := rfl

/-- A character behind a backslash. -/
theorem spells_escape {c d : Char} (h : escaped? d = some c) : Spells multiline ['\\', d] c where
  front := ⟨'\\', [d], rfl, by decide, .inl rfl⟩
  read g rest := by
    have letter : move multiline .escape d rest = .go [c] .plain := by
      simp [move, h, isSpace_of_escaped? h]
    exact (readFrom_go (move_backslash _) g).trans (readFrom_go letter g)

theorem hexValue?_digit : ∀ n < 16, Text.hexValue? (Nat.digitChar n).toUpper = some n := by
  decide

/-- A hexadecimal digit that is not the last. -/
theorem readFrom_digit {n missing value : Nat} (hn : n < 16) (more : 1 < missing) (t : Text) :
    readFrom multiline (.hex missing value) g ((Nat.digitChar n).toUpper :: t) =
      readFrom multiline (.hex (missing - 1) (value * 16 + n)) g t := by
  have digit : move multiline (.hex missing value) (Nat.digitChar n).toUpper t =
      .go [] (.hex (missing - 1) (value * 16 + n)) := by
    simp [move, hexValue?_digit n hn, more]
  exact readFrom_go digit g

/-- The last hexadecimal digit of a character. -/
theorem readFrom_lastDigit {n value : Nat} {c : Char} (hn : n < 16) (hc : value * 16 + n = c.toNat)
    (t : Text) :
    readFrom multiline (.hex 1 value) g ((Nat.digitChar n).toUpper :: t) =
      readFrom multiline .plain (c :: g) t := by
  have valid : c.toNat.isValidChar := c.valid
  have digit : move multiline (.hex 1 value) (Nat.digitChar n).toUpper t = .go [c] .plain := by
    simp [move, hexValue?_digit n hn, hc, valid]
  exact readFrom_go digit g

/-- A character by its number. -/
theorem spells_hex4 {c : Char} (hc : c.toNat < 0x10000) :
    Spells multiline ('\\' :: 'u' :: hex4 c.toNat) c where
  front := ⟨'\\', _, rfl, by decide, .inl rfl⟩
  read g rest := by
    have letter (t : Text) : move multiline .escape 'u' t = .go [] (.hex 4 0) := by
      cases multiline <;> rfl
    have digit (n : Nat) : n % 16 < 16 := Nat.mod_lt n (by decide)
    simp only [hex4, Text.hexByte, List.cons_append, List.nil_append, List.map_cons, List.map_nil]
    rw [readFrom_go (move_backslash _), readFrom_go (letter _),
      readFrom_digit (digit _) (by decide), readFrom_digit (digit _) (by decide),
      readFrom_digit (digit _) (by decide), readFrom_lastDigit (c := c) (digit _) (by omega)]
    rfl

/-- A character is written by itself, whatever stands around it, unless it is a double quote that
is left as it is. -/
theorem escaped_cases (multiline : Bool) (run : Nat) (c : Char) (t : Text) :
    (∃ written, Spells multiline written c ∧
        escaped multiline run (c :: t) = written ++ escaped multiline 0 t) ∨
      multiline = true ∧ run < 2 ∧ c = '"' ∧
        escaped multiline run (c :: t) = '"' :: escaped multiline (run + 1) t := by
  by_cases hc : c = '"'
  · by_cases left : multiline = true ∧ run < 2
    · exact .inr ⟨left.1, left.2, hc, by simp [escaped, hc, left]⟩
    · refine .inl ⟨['\\', '"'], ?_, ?_⟩
      · rw [hc]
        exact spells_escape rfl
      · rw [escaped.eq_def]
        dsimp only
        rw [if_pos hc, if_neg (by simpa using left)]
        rfl
  · left
    rw [escaped.eq_def]
    dsimp only
    rw [if_neg hc]
    refine ⟨_, ?_, rfl⟩
    split
    · exact spells_escape rfl
    · exact spells_escape rfl
    · cases multiline with
      | true => exact spells_lineFeed
      | false => exact spells_escape rfl
    · exact spells_escape rfl
    · exact spells_escape rfl
    · exact spells_escape rfl
    · rename_i ht hn hf hr hb
      cases hcontrol : isControl c with
      | true =>
          refine spells_hex4 ?_
          simp [isControl] at hcontrol
          omega
      | false => exact spells_self hc hb (isPlain_of_not_isControl hcontrol hn)

/-- A text between two double quotes is read back. -/
theorem readFrom_escaped (t g rest : Text) :
    readFrom false .plain g (escaped false 0 t ++ '"' :: rest) = some (g.reverse ++ t, rest) := by
  induction t generalizing g with
  | nil => simp [escaped, readFrom, move, plainMove]
  | cons c t ih =>
      obtain ⟨written, spells, hwritten⟩ | ⟨several, -⟩ := escaped_cases false 0 c t
      · rw [hwritten, List.append_assoc, spells.read, ih]
        simp
      · cases several

/-! ### Double quotes on several lines -/

theorem move_quotes {n : Nat} (hn : n < 4) (t : Text) :
    move true (.quotes n) '"' t = .go [] (.quotes (n + 1)) := by
  rw [move, if_pos rfl, if_neg (Nat.ne_of_lt hn)]

theorem plainMove_of_ne (multiline : Bool) {c : Char} (hc : c ≠ '"') (t : Text) :
    (∃ added s, plainMove multiline c t = .go added s) ∨ plainMove multiline c t = .fail := by
  rw [plainMove, if_neg hc]
  split
  · exact .inl ⟨_, _, rfl⟩
  · split
    · exact .inl ⟨_, _, rfl⟩
    · split
      · exact .inl ⟨_, _, rfl⟩
      · exact .inr rfl

/-- Up to two quotes belong to the text if anything else follows them. -/
theorem readFrom_quotes {n : Nat} (hn : n ≤ 2) {c : Char} (hc : c ≠ '"') (t : Text) :
    readFrom true (.quotes n) g (c :: t) =
      readFrom true .plain (List.replicate n '"' ++ g) (c :: t) := by
  have few : ¬ 3 ≤ n := by omega
  rw [readFrom, readFrom]
  simp only [move, if_neg hc, if_neg few]
  obtain ⟨added, s, h⟩ | h := plainMove_of_ne true hc t
  · simp [h]
  · simp [h]

theorem readFrom_noQuotes (t : Text) :
    readFrom true .plain g t = readFrom true (.quotes 0) g t := by
  cases t with
  | nil => rfl
  | cons c t =>
      by_cases hc : c = '"'
      · rw [hc]
        rfl
      · exact (readFrom_quotes (Nat.zero_le 2) hc t).symm

/-- Of three quotes or more in a row, the last three end the text. -/
theorem readFrom_ended {n : Nat} (hn : 3 ≤ n) (hrest : rest.head? ≠ some '"') :
    readFrom true (.quotes n) g rest = some ((List.replicate (n - 3) '"' ++ g).reverse, rest) := by
  cases rest with
  | nil => rw [readFrom, if_pos hn]
  | cons c rest =>
      have hc : c ≠ '"' := fun h => hrest (by rw [h]; rfl)
      simp only [readFrom, move, if_neg hc, if_pos hn]

/-- Three quotes end the text, and up to two in front of them belong to it. -/
theorem readFrom_closing {n : Nat} (hn : n ≤ 2) (hrest : rest.head? ≠ some '"') :
    readFrom true (.quotes n) g ('"' :: '"' :: '"' :: rest) =
      some ((List.replicate n '"' ++ g).reverse, rest) := by
  rw [readFrom_go (move_quotes (by omega) _), readFrom_go (move_quotes (by omega) _)]
  by_cases two : n = 2
  · -- The fifth quote in a row is the last that can belong to the string.
    rw [two]
    rfl
  · rw [readFrom_go (move_quotes (by omega) _), readFrom_ended (by omega) hrest]
    rfl

/-- A text between three double quotes each is read back. -/
theorem readFrom_lines (hrest : rest.head? ≠ some '"') {run : Nat} (hrun : run ≤ 2) (t g : Text) :
    readFrom true (.quotes run) g (escaped true run t ++ '"' :: '"' :: '"' :: rest) =
      some ((List.replicate run '"' ++ g).reverse ++ t, rest) := by
  induction t generalizing run g with
  | nil =>
      rw [List.append_nil]
      exact readFrom_closing hrun hrest
  | cons c t ih =>
      obtain ⟨written, spells, hwritten⟩ | ⟨-, room, rfl, counted⟩ :=
        escaped_cases true run c t
      · -- What has been counted belongs to the text, since no quote follows.
        obtain ⟨d, ds, rfl, hd, -⟩ := spells.front
        rw [hwritten, List.append_assoc, List.cons_append, readFrom_quotes hrun hd,
          ← List.cons_append, spells.read, readFrom_noQuotes, ih (Nat.zero_le 2)]
        simp
      · rw [counted, List.cons_append, readFrom_go (move_quotes (by omega) _), ih room]
        simp [List.replicate_succ]

/-! ### Without escapes -/

theorem literal_append {t : Text} (ht : '\'' ∉ t) (plain : t.all isPlain) (rest : Text) :
    literal (t ++ '\'' :: rest) = some (t, rest) := by
  have stop : ('\'' :: rest).head?.all (· = '\'') := rfl
  simp only [literal, Text.takeWhile_ne_append ht stop, Text.dropWhile_ne_append ht stop, plain,
    if_true]

theorem le_longestRun (c : Char) (run : Nat) (t : Text) : run ≤ longestRun c run t := by
  induction t generalizing run with
  | nil => exact Nat.le_refl run
  | cons d t ih =>
      rw [longestRun]
      split
      · exact Nat.le_of_succ_le (ih (run + 1))
      · exact Nat.le_max_left ..

theorem notMem_of_longestRun {c : Char} {t : Text} (h : longestRun c 0 t = 0) : c ∉ t := by
  induction t with
  | nil => exact nofun
  | cons d t ih =>
      rw [longestRun] at h
      split at h
      · exact absurd h (Nat.ne_of_gt (le_longestRun c 1 t))
      · rename_i hd
        rw [List.mem_cons, not_or]
        exact ⟨Ne.symm hd, ih (by omega)⟩

theorem literalLines_quote {n : Nat} (hn : n ≠ 4) (t : Text) :
    literalLines n g ('\'' :: t) = literalLines (n + 1) g t := by
  rw [literalLines, if_pos rfl, if_neg hn]

theorem literalLines_ended {n : Nat} (hn : 3 ≤ n) (hrest : rest.head? ≠ some '\'') :
    literalLines n g rest = some ((List.replicate (n - 3) '\'' ++ g).reverse, rest) := by
  cases rest with
  | nil => rw [literalLines, if_pos hn]
  | cons c rest =>
      have hc : c ≠ '\'' := fun h => hrest (by rw [h]; rfl)
      rw [literalLines, if_neg hc, if_pos hn]

theorem literalLines_closing {n : Nat} (hn : n ≤ 2) (hrest : rest.head? ≠ some '\'') :
    literalLines n g ('\'' :: '\'' :: '\'' :: rest) =
      some ((List.replicate n '\'' ++ g).reverse, rest) := by
  rw [literalLines_quote (by omega), literalLines_quote (by omega)]
  by_cases two : n = 2
  · rw [two]
    rfl
  · rw [literalLines_quote (by omega), literalLines_ended (by omega) hrest]
    rfl

/-- A text between three single quotes each is read back. -/
theorem literalLines_append (hrest : rest.head? ≠ some '\'') {t : Text} {count : Nat}
    (few : longestRun '\'' count t ≤ 2) (plain : ∀ c ∈ t, isPlain c ∨ c = '\n') (g : Text) :
    literalLines count g (t ++ '\'' :: '\'' :: '\'' :: rest) =
      some ((List.replicate count '\'' ++ g).reverse ++ t, rest) := by
  induction t generalizing count g with
  | nil =>
      rw [List.append_nil]
      exact literalLines_closing few hrest
  | cons c t ih =>
      rw [List.forall_mem_cons] at plain
      rw [longestRun] at few
      rw [List.cons_append]
      by_cases hc : c = '\''
      · rw [if_pos hc] at few
        have room := le_longestRun '\'' (count + 1) t
        rw [hc, literalLines_quote (by omega), ih few plain.2]
        simp [List.replicate_succ]
      · rw [if_neg hc] at few
        have stands (u : Text) : (isPlain c || isSpace c u) = true := by
          obtain h | h := plain.1
          · rw [h, Bool.true_or]
          · rw [h]
            rfl
        rw [literalLines, if_neg hc, if_neg (by omega), if_pos (stands _), ih (by omega) plain.2]
        simp

/-! ### The four kinds -/

/-- A text with a line feed begins on a line of its own, any other where it stands. -/
theorem dropLineFeed_lead {lines : Bool} {t : Text}
    (h : lines = false → ∃ d u, t = d :: u ∧ isPlain d) :
    dropLineFeed ((if lines then ['\n'] else []) ++ t) = t := by
  cases lines with
  | true => rfl
  | false =>
      obtain ⟨d, u, rfl, hd⟩ := h rfl
      show dropLineFeed (d :: u) = d :: u
      rw [dropLineFeed.eq_def]
      split
      · rename_i heq
        cases heq
        cases hd
      · rename_i heq
        cases heq
        cases hd
      · rfl

/-- What is written for a text begins with no quote on one line, and with the end of a line only if
the text has one. -/
theorem escaped_front (multiline : Bool) (t u : Text) :
    t = [] ∨ ∃ d ds, escaped multiline 0 t ++ u = d :: ds ∧ (multiline = false → d ≠ '"') ∧
      ('\n' ∉ t → isPlain d) := by
  cases t with
  | nil => exact .inl rfl
  | cons c t =>
      right
      obtain ⟨written, spells, hwritten⟩ | ⟨rfl, -, -, hwritten⟩ :=
        escaped_cases multiline 0 c t
      · obtain ⟨d, ds, rfl, hd, plain⟩ := spells.front
        refine ⟨d, _, by rw [hwritten]; rfl, fun _ => hd, fun oneLine => ?_⟩
        exact plain.resolve_right fun hc => oneLine (hc ▸ List.mem_cons_self)
      · exact ⟨'"', _, by rw [hwritten]; rfl, nofun, fun _ => rfl⟩

/-- Only three quotes in a row begin a string on several lines. -/
theorem any_quote {u : Text} (h : ∀ v, u ≠ '"' :: '"' :: v) :
    any ('"' :: u) = readFrom false .plain [] u := by
  rw [any.eq_def]
  split
  · rename_i heq
    exact absurd (List.cons.inj heq).2 (h _)
  · rename_i heq
    cases heq
  · rfl

theorem any_singleQuote {u : Text} (h : ∀ v, u ≠ '\'' :: '\'' :: v) :
    any ('\'' :: u) = literal u := by
  rw [any.eq_def]
  split
  · rename_i heq
    cases heq
  · rename_i heq
    exact absurd (List.cons.inj heq).2 (h _)
  · rfl

section

variable {t : Text} (hquote : rest.head? ≠ some '"') (hsingle : rest.head? ≠ some '\'')

include hquote

theorem any_escaped : any ('"' :: (escaped false 0 t ++ '"' :: rest)) = some (t, rest) := by
  rw [any_quote, readFrom_escaped]
  · rfl
  · intro v h
    obtain rfl | ⟨d, ds, hfront, hd, -⟩ := escaped_front false t ('"' :: rest)
    · exact hquote (by rw [(List.cons.inj h).2]; rfl)
    · rw [hfront] at h
      exact hd rfl (List.cons.inj h).1

theorem any_lines :
    any ('"' :: '"' :: '"' :: ((if t.contains '\n' then ['\n'] else []) ++
      (escaped true 0 t ++ '"' :: '"' :: '"' :: rest))) = some (t, rest) := by
  rw [any, dropLineFeed_lead, readFrom_noQuotes, readFrom_lines hquote (Nat.zero_le 2)]
  · rfl
  · intro oneLine
    obtain rfl | ⟨d, ds, hfront, -, plain⟩ :=
      escaped_front true t ('"' :: '"' :: '"' :: rest)
    · exact ⟨'"', _, rfl, rfl⟩
    · exact ⟨d, ds, hfront, plain (by simpa using oneLine)⟩

omit hquote

include hsingle

theorem any_literal (ht : '\'' ∉ t) (plain : t.all isPlain) :
    any ('\'' :: (t ++ '\'' :: rest)) = some (t, rest) := by
  rw [any_singleQuote, literal_append ht plain]
  intro v h
  cases t with
  | nil => exact hsingle (by rw [(List.cons.inj h).2]; rfl)
  | cons c t =>
      refine ht ?_
      rw [(List.cons.inj h).1]
      exact List.mem_cons_self

theorem any_literalLines (few : longestRun '\'' 0 t ≤ 2) (plain : ∀ c ∈ t, isPlain c ∨ c = '\n') :
    any ('\'' :: '\'' :: '\'' :: ((if t.contains '\n' then ['\n'] else []) ++
      (t ++ '\'' :: '\'' :: '\'' :: rest))) = some (t, rest) := by
  rw [any, dropLineFeed_lead, literalLines_append hsingle few plain]
  · rfl
  · intro oneLine
    cases t with
    | nil => exact ⟨'\'', _, rfl, rfl⟩
    | cons c t =>
        refine ⟨c, _, rfl, (plain c List.mem_cons_self).resolve_right ?_⟩
        rintro rfl
        simp at oneLine

end

/-- **Whatever kind of string a text is written as**, it is read back, if no quote follows. -/
theorem any_stringText (t : Text) {rest : Text} (hquote : rest.head? ≠ some '"')
    (hsingle : rest.head? ≠ some '\'') : any (stringText t ++ rest) = some (t, rest) := by
  have stands (h : t.any isControl = false) : ∀ c ∈ t, isPlain c ∨ c = '\n' := by
    intro c hc
    by_cases hn : c = '\n'
    · exact .inr hn
    · refine .inl (isPlain_of_not_isControl ?_ hn)
      simpa using List.any_eq_false.mp h c hc
  fun_cases stringText t with
  | case1 | case6 =>
      rw [List.append_assoc, List.append_assoc]
      exact any_escaped hquote
  | case2 controls backslash lines doubles singles _ kind =>
      simp only [Bool.and_eq_true, Bool.not_eq_true', decide_eq_true_eq] at kind
      obtain ⟨⟨noControls, noSingles⟩, oneLine⟩ := kind
      rw [List.append_assoc, List.append_assoc]
      refine any_literal hsingle (notMem_of_longestRun noSingles) (List.all_eq_true.mpr ?_)
      intro c hc
      refine (stands noControls c hc).resolve_right ?_
      rintro rfl
      simp [lines, hc] at oneLine
  | case3 | case5 =>
      rw [List.append_assoc, List.append_assoc, List.append_assoc]
      exact any_lines hquote
  | case4 controls backslash lines doubles singles lead _ _ _ kind =>
      simp only [Bool.and_eq_true, Bool.not_eq_true', decide_eq_true_eq] at kind
      rw [List.append_assoc, List.append_assoc, List.append_assoc]
      exact any_literalLines hsingle kind.2 (stands kind.1)

end EventLog.Toml.Quoted
