import EventLog.Proofs.Primitive.Front
import Mathlib.Data.Nat.Find

/-!
# Reading goes forward

Where a value is found, the position stood in front of some characters of the input and is moved
behind them; else it stays where it is (`parse_cases`).  So it is always good again
(`Text.Boundary`), and an attempt that fails leaves no trace: kinds that are tried in turn are all
tried at one position (`firstMatch_eq_iff`).

Calls that follow one another each begin where the one before ended (`position`).  As long as they
find values they use up the input, and one of them comes to find none.

* `reads_forward`: what a reader does to the position, what is the first match, and how many calls in
  a row can find a value.
-/

namespace EventLog

namespace Text

/-- A position between two characters of a text, or at one of its ends. -/
def Boundary (t : Text) (n : Nat) : Prop := ∃ front rest, t = front ++ rest ∧ front.size = n

theorem exists_of_dropBytes? {n : Nat} {t rest : Text} (h : dropBytes? n t = some rest) :
    ∃ front, t = front ++ rest ∧ front.size = n := by
  fun_induction dropBytes? n t with
  | case1 t =>
      cases h
      exact ⟨[], rfl, rfl⟩
  | case3 n c t hle ih =>
      obtain ⟨front, rfl, hsize⟩ := ih h
      exact ⟨c :: front, rfl, by rw [size_cons, hsize]; omega⟩
  | case2 | case4 => cases h

theorem dropBytes?_size (front rest : Text) : dropBytes? front.size (front ++ rest) = some rest := by
  rw [← Nat.add_zero front.size, dropBytes?_append, dropBytes?_zero]

theorem size_pos {t : Text} (h : t ≠ []) : 0 < t.size := by
  obtain ⟨c, t, rfl⟩ := List.exists_cons_of_ne_nil h
  exact Nat.add_pos_left c.utf8Size_pos _

end Text

namespace Primitive

variable (extra : Option Text) (input : Text) (offset : Nat)

/-! ### One kind -/

/-- A value that is found stands between the old position and the new one; otherwise the position
does not change. -/
theorem parse_cases (p : Primitive) :
    (∃ front word rest v, input = front ++ (word ++ rest) ∧ word ≠ [] ∧ front.size = offset ∧
        p.parse extra input offset = (.ok v, (front ++ word).size)) ∨
      ∃ e, p.parse extra input offset = (.error e, offset) := by
  rw [parse]
  cases hread : p.reader extra with
  | error e => exact .inr ⟨e, rfl⟩
  | ok read =>
      dsimp only
      cases hfound : readAt read input offset with
      | none => exact .inr ⟨_, rfl⟩
      | some found =>
          obtain ⟨s, hs, hfound⟩ := Option.bind_eq_some_iff.mp hfound
          obtain ⟨⟨v, rest⟩, hv, hfound⟩ := Option.bind_eq_some_iff.mp hfound
          cases hfound
          obtain ⟨front, rfl, hfront⟩ := Text.exists_of_dropBytes? hs
          obtain ⟨word, hne, rfl⟩ := took_of_reader hread hv
          refine .inl ⟨front, word, rest, v, rfl, hne, hfront, ?_⟩
          simp [hfront]

/-- What comes of reading at a position: a value and a good position behind the old one, or an error
and the old position. -/
def Forward : Except EventError Value × Nat → Prop
  | (.ok _, next)    => offset < next ∧ next ≤ input.size ∧ input.Boundary next
  | (.error _, next) => next = offset

theorem forward_parse (p : Primitive) : Forward input offset (p.parse extra input offset) := by
  obtain ⟨front, word, rest, v, rfl, hne, rfl, h⟩ | ⟨e, h⟩ := parse_cases extra input offset p
  · rw [h]
    have := Text.size_pos hne
    refine ⟨?_, ?_, front ++ word, rest, (List.append_assoc ..).symm, rfl⟩
    · rw [Text.size_append]; omega
    · simp only [Text.size_append]; omega
  · rw [h]
    rfl

/-! ### Several kinds -/

/-- A kind does not fit at a position. -/
def Unfit (p : Primitive) : Prop := (p.parse extra input offset).1 = .error .wrongParser

/-- What kinds that are tried in turn come to, all of them at one position. -/
inductive Tried : List Primitive → Except EventError (Option (Primitive × Value)) × Nat → Prop where
  /-- None of them fits. -/
  | unfit {kinds : List Primitive} (all : ∀ p ∈ kinds, Unfit extra input offset p) :
      Tried kinds (.ok none, offset)
  /-- The first that does not fail to fit finds a value. -/
  | found {before after : List Primitive} {p : Primitive} {v : Value} {next : Nat}
      (unfit : ∀ q ∈ before, Unfit extra input offset q)
      (value : p.parse extra input offset = (.ok v, next)) :
      Tried (before ++ p :: after) (.ok (some (p, v)), next)
  /-- The first that does not fail to fit has another error. -/
  | refused {before after : List Primitive} {p : Primitive} {e : EventError}
      (unfit : ∀ q ∈ before, Unfit extra input offset q) (other : e ≠ .wrongParser)
      (error : p.parse extra input offset = (.error e, offset)) :
      Tried (before ++ p :: after) (.error e, offset)

variable {extra input offset}

theorem Unfit.parse_eq {p : Primitive} (h : Unfit extra input offset p) :
    p.parse extra input offset = (.error .wrongParser, offset) := by
  obtain ⟨front, word, rest, v, -, -, -, hp⟩ | ⟨e, hp⟩ := parse_cases extra input offset p
  · rw [Unfit, hp] at h
    cases h
  · rw [Unfit, hp] at h
    cases h
    exact hp

/-- Kinds that do not fit leave no trace. -/
theorem firstMatch_append {before : List Primitive} (h : ∀ q ∈ before, Unfit extra input offset q)
    (kinds : List Primitive) :
    firstMatch extra input (before ++ kinds) offset = firstMatch extra input kinds offset := by
  induction before with
  | nil => rfl
  | cons q before ih =>
      rw [List.forall_mem_cons] at h
      rw [List.cons_append, firstMatch, h.1.parse_eq]
      exact ih h.2

theorem firstMatch_of_refused {p : Primitive} {e : EventError} (other : e ≠ .wrongParser)
    (error : p.parse extra input offset = (.error e, offset)) (after : List Primitive) :
    firstMatch extra input (p :: after) offset = (.error e, offset) := by
  rw [firstMatch, error]
  split
  · next h => cases h
  · next h =>
      cases h
      exact absurd rfl other
  · next h =>
      cases h
      rfl

theorem Tried.eq {kinds : List Primitive}
    {r : Except EventError (Option (Primitive × Value)) × Nat}
    (h : Tried extra input offset kinds r) : firstMatch extra input kinds offset = r := by
  cases h with
  | unfit all =>
      have none := firstMatch_append all []
      rwa [List.append_nil] at none
  | found unfit value => rw [firstMatch_append unfit, firstMatch, value]
  | refused unfit other error =>
      rw [firstMatch_append unfit, firstMatch_of_refused other error]

theorem Tried.cons {p : Primitive} {kinds : List Primitive}
    {r : Except EventError (Option (Primitive × Value)) × Nat} (hp : Unfit extra input offset p)
    (h : Tried extra input offset kinds r) : Tried extra input offset (p :: kinds) r := by
  cases h with
  | unfit all => exact .unfit (List.forall_mem_cons.mpr ⟨hp, all⟩)
  | found unfit value =>
      rw [← List.cons_append]
      exact .found (List.forall_mem_cons.mpr ⟨hp, unfit⟩) value
  | refused unfit other error =>
      rw [← List.cons_append]
      exact .refused (List.forall_mem_cons.mpr ⟨hp, unfit⟩) other error

variable (extra input offset) in
theorem exists_tried (kinds : List Primitive) : ∃ r, Tried extra input offset kinds r := by
  induction kinds with
  | nil => exact ⟨_, .unfit fun _ h => nomatch h⟩
  | cons p kinds ih =>
      obtain ⟨r, further⟩ := ih
      have first : ∀ q ∈ ([] : List Primitive), Unfit extra input offset q := fun _ h => nomatch h
      obtain ⟨front, word, rest, v, -, -, -, hp⟩ | ⟨e, hp⟩ := parse_cases extra input offset p
      · exact ⟨_, .found first hp⟩
      · by_cases he : e = .wrongParser
        · subst he
          exact ⟨r, further.cons (by rw [Unfit, hp])⟩
        · exact ⟨_, .refused first he hp⟩

/-- The first match is what the kinds come to at the position itself. -/
theorem firstMatch_eq_iff {kinds : List Primitive}
    {r : Except EventError (Option (Primitive × Value)) × Nat} :
    firstMatch extra input kinds offset = r ↔ Tried extra input offset kinds r := by
  refine ⟨?_, Tried.eq⟩
  rintro rfl
  obtain ⟨r, h⟩ := exists_tried extra input offset kinds
  rwa [h.eq]

/-! ### Calls that follow one another -/

/-- A call finds a value. -/
def Finds (r : Except EventError (Option (Primitive × Value)) × Nat) : Prop :=
  ∃ found, r.1 = .ok (some found)

/-- The position in front of each of some calls that follow one another; every call has an extra text
and kinds of its own. -/
def position (input : Text) (offset : Nat) (calls : Nat → Option Text × List Primitive) : Nat → Nat
  | 0     => offset
  | k + 1 => (firstMatch (calls k).1 input (calls k).2 (position input offset calls k)).2

/-- A call among others that follow one another. -/
def call (input : Text) (offset : Nat) (calls : Nat → Option Text × List Primitive) (k : Nat) :
    Except EventError (Option (Primitive × Value)) × Nat :=
  firstMatch (calls k).1 input (calls k).2 (position input offset calls k)

/-- A call that finds a value moves the position forward, inside of the input. -/
theorem lt_of_finds {kinds : List Primitive} (h : Finds (firstMatch extra input kinds offset)) :
    offset < (firstMatch extra input kinds offset).2 ∧
      (firstMatch extra input kinds offset).2 ≤ input.size := by
  obtain ⟨r, tried⟩ := exists_tried extra input offset kinds
  rw [tried.eq] at h ⊢
  obtain ⟨found, h⟩ := h
  cases tried with
  | unfit | refused => cases h
  | @found _ _ p v next _ value =>
      have forward := forward_parse extra input offset p
      rw [value] at forward
      exact ⟨forward.1, forward.2.1⟩

variable {calls : Nat → Option Text × List Primitive}

/-- Calls that all find values use up a byte each. -/
theorem add_le_position {k : Nat} (h : ∀ j < k, Finds (call input offset calls j)) :
    offset + k ≤ position input offset calls k := by
  induction k with
  | zero => exact Nat.le_refl _
  | succ k ih =>
      have before := ih fun j hj => h j (Nat.lt_succ_of_lt hj)
      have moved := (lt_of_finds (h k k.lt_succ_self)).1
      rw [position]
      omega

/-- So no more calls in a row find values than the input has bytes. -/
theorem le_size_of_finds {k : Nat} (h : ∀ j < k, Finds (call input offset calls j)) :
    k ≤ input.size := by
  cases k with
  | zero => exact Nat.zero_le _
  | succ k =>
      have used := add_le_position h
      have inside := (lt_of_finds (h k k.lt_succ_self)).2
      rw [position] at used
      omega

variable (input offset calls)

/-- One of the calls finds no value, the first to do so behind no more calls than the input has
bytes. -/
theorem exists_call : ∃ k ≤ input.size, (∀ j < k, Finds (call input offset calls j)) ∧
    ¬ Finds (call input offset calls k) := by
  classical
  have ends : ∃ k, ¬ Finds (call input offset calls k) := by
    by_contra never
    have all (j : Nat) : Finds (call input offset calls j) := by
      by_contra hj
      exact never ⟨j, hj⟩
    exact Nat.not_succ_le_self _ (le_size_of_finds fun j (_ : j < input.size + 1) => all j)
  have before : ∀ j < Nat.find ends, Finds (call input offset calls j) := fun j hj =>
    not_not.mp (Nat.find_min ends hj)
  exact ⟨Nat.find ends, le_size_of_finds before, before, Nat.find_spec ends⟩

/-! ### Main statement -/

/-- **Reading goes forward.**  A reader that finds a value moves the position forward, to a good one
inside of the input; one that fails leaves it.  The first match among some kinds is what the first of
them answers that fits, or is refused, at the position itself.  Of calls that follow one another, one
finds no value, and no more calls stand before it than the input has bytes. -/
theorem reads_forward :
    (∀ extra (p : Primitive), Forward input offset (p.parse extra input offset)) ∧
    (∀ extra kinds r,
      firstMatch extra input kinds offset = r ↔ Tried extra input offset kinds r) ∧
    ∃ k ≤ input.size, (∀ j < k, Finds (call input offset calls j)) ∧
      ¬ Finds (call input offset calls k) :=
  ⟨fun extra p => forward_parse extra input offset p,
    fun _ _ _ => firstMatch_eq_iff, exists_call input offset calls⟩

end Primitive

end EventLog
