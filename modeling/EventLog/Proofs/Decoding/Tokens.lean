import EventLog.Decoder.Apache

/-!
# The grammar of access log lines

An access log line is a row of tokens with spaces between them.  Here it is said without a scanner
which tokens a line has (`Apache.Spells`): a bare token is a word that a space or the end of the line
follows, an enclosed one is any text between its opening and its closing character, and the last
token of a line may lack the closing one.

* `exists_spells`: every line is such a row.
* `spells_quotedRow`: any texts without double quotes are the tokens of a line.
* `event_of_spells`: the event of a line has a field for each name that a token is left for, and its
  text is the token, or empty if that is a single dash.
-/

namespace EventLog.Apache

/-! ### Rows of tokens -/

/-- What stands around a token that is not bare. -/
inductive Enclosure where
  | quotes
  | brackets
deriving Repr, DecidableEq

namespace Enclosure

/-- The character in front of the token. -/
def opening : Enclosure → Char
  | quotes   => '"'
  | brackets => '['

/-- The character behind the token. -/
def closing : Enclosure → Char
  | quotes   => '"'
  | brackets => ']'

theorem closer_opening (e : Enclosure) : closer e.opening = (e.closing, false) := by
  cases e <;> rfl

theorem opening_ne_space (e : Enclosure) : e.opening ≠ ' ' := by
  cases e <;> decide

end Enclosure

/-- A token that can stand bare. -/
structure Bare (t : Text) : Prop where
  nonempty : t ≠ []
  noSpace : ' ' ∉ t
  notOpening : ∀ e : Enclosure, t.head? ≠ some e.opening

theorem bare_iff {t : Text} :
    Bare t ↔ t ≠ [] ∧ ' ' ∉ t ∧ t.head? ≠ some '"' ∧ t.head? ≠ some '[' := by
  constructor
  · exact fun h => ⟨h.nonempty, h.noSpace, h.notOpening .quotes, h.notOpening .brackets⟩
  · rintro ⟨nonempty, noSpace, quote, bracket⟩
    refine ⟨nonempty, noSpace, fun e => ?_⟩
    cases e with
    | quotes   => exact quote
    | brackets => exact bracket

instance (t : Text) : Decidable (Bare t) := decidable_of_iff _ bare_iff.symm

/-- Some spaces. -/
def spaces (n : Nat) : Text := List.replicate n ' '

/-- A line is a row of tokens, any number of spaces in front of each and behind the last.  Only a bare
token needs a space behind it, unless it is the last. -/
inductive Spells : Text → List Text → Prop where
  | blank (n : Nat) : Spells (spaces n) []
  | bare (n : Nat) {t line : Text} {ts : List Text} (token : Bare t)
      (apart : line.head?.all (· = ' ')) (further : Spells line ts) :
      Spells (spaces n ++ (t ++ line)) (t :: ts)
  | enclosed (n : Nat) (e : Enclosure) {t line : Text} {ts : List Text} (token : e.closing ∉ t)
      (further : Spells line ts) :
      Spells (spaces n ++ e.opening :: (t ++ e.closing :: line)) (t :: ts)
  /-- A last token that lacks the closing character. -/
  | unclosed (n : Nat) (e : Enclosure) {t : Text} (token : e.closing ∉ t) :
      Spells (spaces n ++ e.opening :: t) [t]

theorem exists_spaces (line : Text) :
    ∃ n rest, line = spaces n ++ rest ∧ rest.head? ≠ some ' ' := by
  induction line with
  | nil => exact ⟨0, [], rfl, nofun⟩
  | cons c line ih =>
      by_cases hc : c = ' '
      · obtain ⟨n, rest, rfl, hrest⟩ := ih
        exact ⟨n + 1, rest, by rw [hc]; rfl, hrest⟩
      · exact ⟨0, c :: line, rfl, by simpa using hc⟩

/-- **Every line is a row of tokens.** -/
theorem exists_spells (line : Text) : ∃ ts, Spells line ts := by
  obtain ⟨n, rest, hline, hrest⟩ := exists_spaces line
  cases rest with
  | nil => exact ⟨[], by rw [hline, List.append_nil]; exact .blank n⟩
  | cons c t =>
      by_cases hc : ∃ e : Enclosure, c = e.opening
      · obtain ⟨e, rfl⟩ := hc
        obtain ⟨token, behind, rfl, htoken, hbehind⟩ := Text.exists_upTo e.closing t
        cases behind with
        | nil => exact ⟨[token], by rw [hline, List.append_nil]; exact .unclosed n e htoken⟩
        | cons d line' =>
            obtain rfl : d = e.closing := by simpa using hbehind
            have shorter : line'.length < line.length := by rw [hline]; simp; omega
            obtain ⟨ts, further⟩ := exists_spells line'
            exact ⟨token :: ts, by rw [hline]; exact .enclosed n e htoken further⟩
      · obtain ⟨word, behind, rfl, hword, hbehind⟩ := Text.exists_upTo ' ' t
        have token : Bare (c :: word) :=
          { nonempty := List.cons_ne_nil c word
            noSpace := by
              have : ' ' ≠ c := fun h => hrest (by rw [h]; rfl)
              simp [this, hword]
            notOpening := fun e h => hc ⟨e, Option.some.inj h⟩ }
        have shorter : behind.length < line.length := by rw [hline]; simp; omega
        obtain ⟨ts, further⟩ := exists_spells behind
        exact ⟨(c :: word) :: ts, by rw [hline]; exact .bare n token hbehind further⟩
termination_by line.length

theorem Spells.space {line : Text} {ts : List Text} (h : Spells line ts) :
    Spells (' ' :: line) ts := by
  cases h with
  | blank n                      => exact .blank (n + 1)
  | bare n token apart further   => exact .bare (n + 1) token apart further
  | enclosed n e token further   => exact .enclosed (n + 1) e token further
  | unclosed n e token           => exact .unclosed (n + 1) e token

/-- A text between double quotes. -/
def enquote (t : Text) : Text := '"' :: (t ++ ['"'])

/-- Texts between double quotes, with a space between them. -/
def quotedRow (ts : List Text) : Text := [' '].intercalate (ts.map enquote)

theorem quotedRow_singleton (t : Text) : quotedRow [t] = '"' :: (t ++ ['"']) := by
  simp [quotedRow, enquote]

theorem quotedRow_cons_cons (t u : Text) (ts : List Text) :
    quotedRow (t :: u :: ts) = '"' :: (t ++ '"' :: ' ' :: quotedRow (u :: ts)) := by
  simp [quotedRow, enquote]

/-- Any texts without double quotes are the tokens of a line. -/
theorem spells_quotedRow : ∀ {ts : List Text}, (∀ t ∈ ts, '"' ∉ t) → Spells (quotedRow ts) ts
  | [], _ => .blank 0
  | [t], h => by
      rw [quotedRow_singleton]
      exact .enclosed 0 .quotes (h t (List.mem_singleton_self t)) (.blank 0)
  | t :: u :: ts, h => by
      rw [List.forall_mem_cons] at h
      rw [quotedRow_cons_cons]
      exact .enclosed 0 .quotes h.1 (spells_quotedRow h.2).space

/-! ### Reading tokens -/

theorem dropSpaces_spaces (n : Nat) {rest : Text} (h : rest.head? ≠ some ' ') :
    Text.dropSpaces (spaces n ++ rest) = rest := by
  have blank : ∀ c ∈ spaces n, decide (c = ' ') = true := fun c hc =>
    decide_eq_true (List.eq_of_mem_replicate hc)
  rw [Text.dropSpaces, List.dropWhile_append_of_pos blank]
  cases rest with
  | nil => rfl
  | cons c rest => rw [List.dropWhile_cons_of_neg (by simpa using h)]

theorem nextToken_spaces (n : Nat) : nextToken (spaces n) = none := by
  have none : Text.dropSpaces (spaces n ++ []) = [] := dropSpaces_spaces n nofun
  rw [List.append_nil] at none
  rw [nextToken, none]

/-- A space in front of a line makes no difference. -/
theorem nextToken_space (line : Text) : nextToken (' ' :: line) = nextToken line := rfl

theorem nextToken_bare (n : Nat) {t rest : Text} (ht : Bare t) (hrest : rest.head?.all (· = ' ')) :
    nextToken (spaces n ++ (t ++ rest)) = some (blankDash t, rest.drop 1) := by
  obtain ⟨c, word, rfl⟩ := List.exists_cons_of_ne_nil ht.nonempty
  have bare : closer c = (' ', true) := by
    rw [closer.eq_def]
    split
    · exact absurd rfl (ht.notOpening .quotes)
    · exact absurd rfl (ht.notOpening .brackets)
    · rfl
  have head : (c :: word ++ rest).head? ≠ some ' ' := by
    rintro h
    exact ht.noSpace (by simp_all)
  rw [nextToken, dropSpaces_spaces n head, List.cons_append]
  simp only [bare, if_true]
  rw [← List.cons_append, Text.takeWhile_ne_append ht.noSpace hrest,
    Text.dropWhile_ne_append ht.noSpace hrest]

theorem nextToken_enclosed (n : Nat) (e : Enclosure) {t rest : Text} (ht : e.closing ∉ t)
    (hrest : rest.head?.all (· = e.closing)) :
    nextToken (spaces n ++ e.opening :: (t ++ rest)) = some (blankDash t, rest.drop 1) := by
  have head : (e.opening :: (t ++ rest)).head? ≠ some ' ' := by
    simpa using e.opening_ne_space
  rw [nextToken, dropSpaces_spaces n head]
  simp only [e.closer_opening, Bool.false_eq_true, if_false]
  rw [Text.takeWhile_ne_append ht hrest, Text.dropWhile_ne_append ht hrest]

/-! ### Fields -/

/-- The field that a token gives a name. -/
def column (name token : Text) : Field := .single name (.string (blankDash token))

theorem fields_space (names : List Text) (line : Text) :
    fields names (' ' :: line) = fields names line := by
  cases names with
  | nil => rfl
  | cons name names => rw [fields, fields, nextToken_space]

theorem fields_of_nextToken {line rest t : Text} {ts : List Text}
    (token : nextToken line = some (blankDash t, rest))
    (further : ∀ names, fields names rest = List.zipWith column names ts) :
    ∀ names, fields names line = List.zipWith column names (t :: ts)
  | []            => rfl
  | name :: names => by
      rw [fields, token, List.zipWith_cons_cons, ← further names]
      rfl

/-- The fields of a row are its tokens with the names in turn. -/
theorem fields_of_spells {line : Text} {ts : List Text} (h : Spells line ts) :
    ∀ names : List Text, fields names line = List.zipWith column names ts := by
  induction h with
  | blank n =>
      intro names
      cases names with
      | nil => rfl
      | cons name names => rw [fields, nextToken_spaces]; rfl
  | @bare n t line ts token apart _ ih =>
      refine fields_of_nextToken (nextToken_bare n token apart) fun names => ?_
      -- The space behind the token, if there is one, is taken with it.
      rw [← ih names]
      cases line with
      | nil => rfl
      | cons c line =>
          obtain rfl : c = ' ' := by simpa using apart
          exact (fields_space names line).symm
  | enclosed n e token _ ih => exact fields_of_nextToken (nextToken_enclosed n e token (by simp)) ih
  | @unclosed n e t token =>
      have last : nextToken (spaces n ++ e.opening :: (t ++ [])) = some (blankDash t, []) :=
        nextToken_enclosed n e token rfl
      rw [List.append_nil] at last
      exact fields_of_nextToken last fun names => by cases names <;> rfl

/-! ### Main statement -/

/-- **The event of a row** has a field for each name that a token is left for. -/
theorem event_of_spells (names : NameList) {line : Text} {ts : List Text} (h : Spells line ts) :
    let e := event names line
    e = ⟨none, List.zipWith column names.names ts⟩ ∧
      e.fields.length = min names.names.length ts.length ∧
      (e.fields = [] ↔ names.names = [] ∨ ts = []) := by
  have given : event names line = ⟨none, List.zipWith column names.names ts⟩ := by
    rw [event, fields_of_spells h]
  intro e
  refine ⟨given, ?_, ?_⟩
  · show (event names line).fields.length = _
    rw [given, List.length_zipWith]
  · show (event names line).fields = [] ↔ _
    rw [given, List.zipWith_eq_nil_iff]

/-- A bare token with a quote inside, two tokens that touch, and more tokens than names. -/
theorem event_of_spells_touching :
    let line : Text := "  a\"b \"-\"[c d]- "
    let ts : List Text := ["a\"b", "-", "c d", "-"]
    Spells line ts ∧
      event ⟨["h", "i", "u"]⟩ line =
        ⟨none, [.single "h" (.string "a\"b"), .single "i" (.string ""),
          .single "u" (.string "c d")]⟩ := by
  intro line ts
  have dash : Spells ['-', ' '] ["-"] := .bare 0 (t := ['-']) (by decide) rfl (.blank 1)
  have bracketed : Spells "[c d]- ".toList ["c d", "-"] :=
    .enclosed 0 .brackets (t := "c d".toList) (by decide) dash
  have quoted : Spells " \"-\"[c d]- ".toList ["-", "c d", "-"] :=
    .enclosed 1 .quotes (t := ['-']) (by decide) bracketed
  have row : Spells line ts := .bare 2 (t := "a\"b".toList) (by decide) rfl quoted
  exact ⟨row, (event_of_spells ⟨["h", "i", "u"]⟩ row).1⟩

end EventLog.Apache
