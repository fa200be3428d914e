import EventLog.NameList
import Mathlib.Data.List.Chain
import Mathlib.Order.Bounds.Basic

/-!
# The grammar of name lists

A list of names is read by cutting it at its separators.  Here it is said without cuts which texts
are such lists.  A text lists some names if it has them in order, one separator between each two and
perhaps one behind the last (`Lists`).  A name is missing where a separator stands at the front or
behind another one (`EmptyNameAt`); where none is missing, the text is `Tight`.

All of these are followed from one separator to the next (`cut_induction`), and so are the pieces
that a list is read from: what each of them is of a text that begins with something unbroken and a
separator is said by `candidates_cut`, `tight_cut` and `emptyNameAt_cut`.

* `parse_isOk_iff`: a text is a list of names if and only if no separator stands at its front and
  no two of them stand side by side.
* `parse_lists`: a text is read as the names it lists, or refused with the first position where one
  is missing; what is written of a list is read back.
-/

namespace EventLog.NameList

/-! ### Texts that list names -/

/-- At least one character, and no separator among them. -/
structure IsName (name : Text) : Prop where
  nonempty : name ≠ []
  unbroken : ∀ c ∈ name, separates c = false

/-- A text has some names in order, one separator between each two of them and perhaps one behind
the last. -/
inductive Lists : List Text → Text → Prop where
  | nil : Lists [] []
  | last {name : Text} (isName : IsName name) : Lists [name] name
  | cons {name : Text} {s : Char} {names : List Text} {list : Text} (isName : IsName name)
      (separator : separates s = true) (further : Lists names list) :
      Lists (name :: names) (name ++ s :: list)

/-- A name would begin behind this text: it is empty, or ends in a separator. -/
def Opens (front : Text) : Prop := front.getLast?.all separates

/-- A name would begin at a position, and a separator stands there. -/
def EmptyNameAt (list : Text) (n : Nat) : Prop :=
  ∃ (front : Text) (s : Char) (rest : Text), list = front ++ s :: rest ∧ separates s = true ∧
    Opens front ∧ front.size = n

/-- Not both of two characters are separators. -/
def Apart (a b : Char) : Prop := ¬ (separates a ∧ separates b)

instance (a b : Char) : Decidable (Apart a b) := inferInstanceAs (Decidable (¬ _))

/-- No separator stands at the front, and no two of them stand side by side. -/
def Tight (list : Text) : Prop := (',' :: list).IsChain Apart

instance (list : Text) : Decidable (Tight list) := inferInstanceAs (Decidable (List.IsChain _ _))

/-! ### From separator to separator -/

/-- A text is unbroken, or has something unbroken in front of a separator and a shorter text behind
it. -/
theorem cut_induction {motive : Text → Prop}
    (piece : ∀ name : Text, (∀ c ∈ name, separates c = false) → motive name)
    (cut : ∀ (name : Text) (s : Char) (list : Text), (∀ c ∈ name, separates c = false) →
      separates s = true → motive list → motive (name ++ s :: list)) (list : Text) :
    motive list := by
  -- What has been passed since the last separator is kept in front.
  suffices h : ∀ name : Text, (∀ c ∈ name, separates c = false) → motive (name ++ list) from
    h [] nofun
  induction list with
  | nil =>
      intro name unbroken
      rw [List.append_nil]
      exact piece name unbroken
  | cons c list ih =>
      intro name unbroken
      cases hc : separates c with
      | true => exact cut name c list unbroken hc (ih [] nofun)
      | false =>
          rw [List.append_cons]
          exact ih (name ++ [c]) (List.forall_mem_append.mpr ⟨unbroken, by simpa using hc⟩)

theorem opens_append_cons {s : Char} (separator : separates s = true) (name front : Text) :
    Opens (name ++ s :: front) ↔ Opens front := by
  rcases front.eq_nil_or_concat with rfl | ⟨front, c, rfl⟩
  · simp [Opens, separator]
  · rw [List.concat_eq_append, ← List.cons_append, ← List.append_assoc, Opens, Opens,
      List.getLast?_concat, List.getLast?_concat]

theorem isChain_cons_of_separates {c : Char} (hc : separates c = true) (list : Text) :
    (c :: list).IsChain Apart ↔ Tight list := by
  have comma : separates ',' = true := by decide
  cases list with
  | nil => simp [Tight]
  | cons d list => simp [Tight, List.isChain_cons_cons, Apart, hc, comma]

theorem isChain_cons_of_not_separates {c : Char} (hc : separates c = false) (list : Text) :
    (c :: list).IsChain Apart ↔ list.IsChain Apart := by
  cases list with
  | nil => simp
  | cons d list => simp [List.isChain_cons_cons, Apart, hc]

theorem tight_cons_iff (c : Char) (list : Text) :
    Tight (c :: list) ↔ separates c = false ∧ (c :: list).IsChain Apart := by
  simp [Tight, List.isChain_cons_cons, Apart, show separates ',' = true by decide]

section

variable {name : Text} (unbroken : ∀ c ∈ name, separates c = false)

include unbroken

theorem candidates_piece : candidates name = if name = [] then [] else [name] := by
  rw [candidates, pieces_eq_singleton separates unbroken]
  by_cases h : name = [] <;> simp [h]

/-- What is unbroken may be left out in front. -/
theorem isChain_append_of_unbroken (list : Text) :
    (name ++ list).IsChain Apart ↔ list.IsChain Apart := by
  induction name with
  | nil => rfl
  | cons c name ih =>
      rw [List.forall_mem_cons] at unbroken
      rw [List.cons_append, isChain_cons_of_not_separates unbroken.1, ih unbroken.2]

theorem tight_piece : Tight name := by
  cases name with
  | nil => exact List.isChain_singleton _
  | cons c name =>
      refine (tight_cons_iff c name).mpr ⟨unbroken c List.mem_cons_self, ?_⟩
      have chain := (isChain_append_of_unbroken unbroken []).mpr List.isChain_nil
      rwa [List.append_nil] at chain

theorem eq_nil_of_opens (h : Opens name) : name = [] := by
  rcases name.eq_nil_or_concat with rfl | ⟨name, c, rfl⟩
  · rfl
  · rw [List.concat_eq_append, Opens, List.getLast?_concat] at h
    simp [unbroken c (by simp)] at h

theorem not_emptyNameAt_piece (n : Nat) : ¬ EmptyNameAt name n := by
  rintro ⟨front, s, rest, rfl, hs, -, -⟩
  simp [unbroken s (by simp)] at hs

variable {s : Char} (separator : separates s = true) {list : Text}

include separator

theorem candidates_cut : candidates (name ++ s :: list) = name :: candidates list := by
  have hne := pieces_ne_nil separates list
  have last : (name :: pieces separates list).getLast? = (pieces separates list).getLast? := by
    obtain ⟨p, ps, hp⟩ := List.exists_cons_of_ne_nil hne
    rw [hp, List.getLast?_cons_cons]
  rw [candidates, pieces_append_cons separates _ _ separator,
    pieces_eq_singleton separates unbroken, List.singleton_append, candidates, last,
    List.dropLast_cons_of_ne_nil hne]
  split <;> rfl

theorem tight_cut : Tight (name ++ s :: list) ↔ name ≠ [] ∧ Tight list := by
  have further : (name ++ s :: list).IsChain Apart ↔ Tight list := by
    rw [isChain_append_of_unbroken unbroken, isChain_cons_of_separates separator]
  cases name with
  | nil => simp [tight_cons_iff, separator]
  | cons c name =>
      rw [List.cons_append] at further ⊢
      simp [tight_cons_iff, further, unbroken c List.mem_cons_self]

theorem emptyNameAt_cut {n : Nat} :
    EmptyNameAt (name ++ s :: list) n ↔
      name = [] ∧ n = 0 ∨ ∃ m, EmptyNameAt list m ∧ n = name.size + 1 + m := by
  have width : s.utf8Size = 1 := by
    obtain rfl | rfl : s = ',' ∨ s = ' ' := by simpa [separates] using separator
    all_goals rfl
  constructor
  · rintro ⟨front, t, rest, split, ht, opens, rfl⟩
    -- The separator without a name before it is the first one, or stands behind it; there is none
    -- in what is unbroken.
    obtain ⟨behind, rfl, hbehind⟩ | ⟨inside, rfl, hinside⟩ := List.append_eq_append_iff.mp split
    · cases behind with
      | nil =>
          rw [List.append_nil] at opens ⊢
          obtain rfl := eq_nil_of_opens unbroken opens
          exact .inl ⟨rfl, rfl⟩
      | cons d front =>
          cases hbehind
          rw [opens_append_cons separator] at opens
          refine .inr ⟨Text.size front, ⟨front, t, rest, rfl, ht, opens, rfl⟩, ?_⟩
          rw [Text.size_append, Text.size_cons, width, Nat.add_assoc]
    · cases inside with
      | nil =>
          rw [List.append_nil] at unbroken ⊢
          obtain rfl := eq_nil_of_opens unbroken opens
          exact .inl ⟨rfl, rfl⟩
      | cons d inside =>
          obtain rfl := List.head_eq_of_cons_eq hinside
          simp [unbroken t (by simp)] at ht
  · rintro (⟨rfl, rfl⟩ | ⟨m, ⟨front, t, rest, rfl, ht, opens, rfl⟩, rfl⟩)
    · exact ⟨[], s, list, rfl, separator, rfl, rfl⟩
    · refine ⟨name ++ s :: front, t, rest, by simp, ht, ?_, ?_⟩
      · exact (opens_append_cons separator _ _).mpr opens
      · rw [Text.size_append, Text.size_cons, width, Nat.add_assoc]

end

/-! ### Names -/

theorem Lists.candidates {names : List Text} {list : Text} (h : Lists names list) :
    NameList.candidates list = names ∧ ∀ name ∈ names, IsName name := by
  induction h with
  | nil => exact ⟨rfl, nofun⟩
  | last isName =>
      rw [candidates_piece isName.unbroken, if_neg isName.nonempty]
      exact ⟨rfl, List.forall_mem_singleton.mpr isName⟩
  | cons isName separator _ ih =>
      rw [candidates_cut isName.unbroken separator, ih.1]
      exact ⟨rfl, List.forall_mem_cons.mpr ⟨isName, ih.2⟩⟩

theorem lists_candidates {list : Text} : [] ∉ candidates list → Lists (candidates list) list := by
  induction list using cut_induction with
  | piece name unbroken =>
      intro nonempty
      rw [candidates_piece unbroken] at nonempty ⊢
      split
      · next h =>
          rw [h]
          exact .nil
      · next h => exact .last ⟨h, unbroken⟩
  | cut name s list unbroken separator ih =>
      intro nonempty
      rw [candidates_cut unbroken separator] at nonempty ⊢
      rw [List.mem_cons, not_or] at nonempty
      exact .cons ⟨Ne.symm nonempty.1, unbroken⟩ separator (ih nonempty.2)

theorem firstEmpty?_eq_none_iff {ps : List Text} :
    ∀ offset : Nat, firstEmpty? offset ps = none ↔ [] ∉ ps := by
  induction ps with
  | nil => simp [firstEmpty?]
  | cons p ps ih =>
      intro offset
      rw [firstEmpty?]
      by_cases hp : p = []
      · simp [hp]
      · simp [hp, ih, eq_comm]

theorem parse_eq_ok_iff {list : Text} {l : NameList} : parse list = .ok l ↔ Lists l.names list := by
  constructor
  · intro h
    rw [parse] at h
    split at h
    · cases h
    · next complete =>
        cases h
        exact lists_candidates ((firstEmpty?_eq_none_iff 0).mp complete)
  · intro h
    obtain ⟨read, isName⟩ := h.candidates
    have complete : firstEmpty? 0 l.names = none :=
      (firstEmpty?_eq_none_iff 0).mpr fun empty => (isName [] empty).nonempty rfl
    rw [parse, read, complete]

/-! ### Names that are missing -/

theorem Lists.not_emptyNameAt {names : List Text} {list : Text} (h : Lists names list) :
    ∀ n, ¬ EmptyNameAt list n := by
  induction h with
  | nil => exact not_emptyNameAt_piece nofun
  | last isName => exact not_emptyNameAt_piece isName.unbroken
  | cons isName separator _ ih =>
      intro n empty
      obtain ⟨nothing, -⟩ | ⟨m, behind, -⟩ :=
        (emptyNameAt_cut isName.unbroken separator).mp empty
      · exact isName.nonempty nothing
      · exact ih m behind

/-- The first empty piece is the first name that is missing. -/
theorem exists_isLeast {list : Text} {offset n : Nat}
    (found : firstEmpty? offset (candidates list) = some n) :
    ∃ m, n = offset + m ∧ IsLeast {k | EmptyNameAt list k} m := by
  induction list using cut_induction generalizing offset n with
  | piece name unbroken =>
      rw [candidates_piece unbroken] at found
      split at found
      · cases found
      · next h => simp [firstEmpty?, h] at found
  | cut name s list unbroken separator ih =>
      rw [candidates_cut unbroken separator, firstEmpty?] at found
      split at found
      · next h =>
          cases found
          exact ⟨0, rfl, (emptyNameAt_cut unbroken separator).mpr (.inl ⟨h, rfl⟩),
            fun k _ => Nat.zero_le k⟩
      · next h =>
          obtain ⟨m, rfl, empty, least⟩ := ih found
          refine ⟨name.size + 1 + m, by omega,
            (emptyNameAt_cut unbroken separator).mpr (.inr ⟨m, empty, rfl⟩), fun k hk => ?_⟩
          obtain ⟨nothing, -⟩ | ⟨j, hj, rfl⟩ := (emptyNameAt_cut unbroken separator).mp hk
          · exact absurd nothing h
          · exact Nat.add_le_add_left (least hj) _

theorem parse_eq_error_iff {list : Text} {e : CodecError} :
    parse list = .error e ↔
      ∃ n, IsLeast {k | EmptyNameAt list k} n ∧ e = .nameList list (.emptyName n) := by
  constructor
  · intro h
    rw [parse] at h
    split at h
    · next n found =>
        cases h
        obtain ⟨m, rfl, least⟩ := exists_isLeast found
        exact ⟨m, least, by rw [Nat.zero_add]⟩
    · cases h
  · rintro ⟨n, least, rfl⟩
    rw [parse]
    split
    · next m found =>
        obtain ⟨k, rfl, least'⟩ := exists_isLeast found
        rw [least.unique least', Nat.zero_add]
    · next complete =>
        have lists := lists_candidates ((firstEmpty?_eq_none_iff 0).mp complete)
        exact absurd least.1 (lists.not_emptyNameAt n)

/-! ### Separators side by side -/

theorem nil_notMem_candidates {list : Text} : [] ∉ candidates list ↔ Tight list := by
  induction list using cut_induction with
  | piece name unbroken =>
      rw [candidates_piece unbroken]
      refine iff_of_true ?_ (tight_piece unbroken)
      split
      · exact List.not_mem_nil
      · next h => simpa [eq_comm] using h
  | cut name s list unbroken separator ih =>
      rw [candidates_cut unbroken separator, List.mem_cons, not_or, ih, eq_comm,
        tight_cut unbroken separator]

/-- **A text is a list of names** if and only if no separator stands at its front or behind
another. -/
theorem parse_isOk_iff {list : Text} : (∃ l, parse list = .ok l) ↔ Tight list := by
  rw [← nil_notMem_candidates, ← firstEmpty?_eq_none_iff 0, parse]
  cases firstEmpty? 0 (candidates list) <;> simp

theorem not_tight_of_error {list : Text} {e : CodecError} (h : parse list = .error e) :
    ¬ Tight list := by
  intro tight
  obtain ⟨l, hl⟩ := parse_isOk_iff.mpr tight
  rw [hl] at h
  cases h

/-! ### Main statement -/

/-- Names with a comma between each two are a list of them. -/
theorem lists_commaList : ∀ {names : List Text}, (∀ name ∈ names, IsName name) →
    Lists names (Text.commaList names)
  | [], _ => .nil
  | [name], h => by
      rw [Text.commaList, List.intercalate_singleton]
      exact .last (h name (List.mem_singleton_self name))
  | name :: name' :: names, h => by
      rw [List.forall_mem_cons] at h
      rw [Text.commaList, List.intercalate_cons_cons, List.append_assoc, List.singleton_append]
      exact .cons h.1 rfl (lists_commaList h.2)

/-- **A text is read as the names that it lists**, or else refused with the first position where a
name is missing.  A list that was read is read again from what is written of it. -/
theorem parse_lists (list : Text) :
    (∀ l, parse list = .ok l ↔ Lists l.names list) ∧
    (∀ e, parse list = .error e ↔
      ∃ n, IsLeast {k | EmptyNameAt list k} n ∧ e = .nameList list (.emptyName n)) ∧
    ∀ l, parse list = .ok l → parse l.text = .ok l := by
  refine ⟨fun _ => parse_eq_ok_iff, fun _ => parse_eq_error_iff, fun l h => ?_⟩
  exact parse_eq_ok_iff.mpr (lists_commaList (parse_eq_ok_iff.mp h).candidates.2)

/-- A space between two names, and one behind the last. -/
theorem parse_lists_spaces :
    let list : Text := "é host "
    let l : NameList := ⟨["é".toList, "host".toList]⟩
    parse list = .ok l ∧ l.text = "é,host".toList ∧ parse l.text = .ok l := by
  intro list l
  have read : parse list = .ok l := by decide
  exact ⟨read, by decide, (parse_lists list).2.2 l read⟩

/-- Positions are counted in bytes. -/
example : parse "é, host" = .error (.nameList "é, host" (.emptyName 3)) := by decide

end EventLog.NameList
