import EventLog.Proofs.Text.Numeral
import EventLog.Proofs.Toml.Strings
import EventLog.Toml.Reader

/-!
# TOML values at the end of a line

A written value is read back where its line ends (`Stands`): a string by its quotes, a word or a
number because the run of characters that it is ends there.  A number that is written in digits
alone is none of the other things that such a run can be, a date, a time or a floating-point number.
-/

namespace EventLog.Toml

/-! ### Runs of characters -/

namespace Scalar

theorem run_append {t : Text} (ht : ∀ c ∈ t, isRunChar c) (rest : Text) :
    run (t ++ '\n' :: rest) = (t, '\n' :: rest) := by
  have stop : ¬ isRunChar '\n' := by decide
  have first : (t ++ '\n' :: rest).takeWhile isRunChar = t := by
    rw [List.takeWhile_append_of_pos ht, List.takeWhile_cons_of_neg stop, List.append_nil]
  have behind : (t ++ '\n' :: rest).dropWhile isRunChar = '\n' :: rest := by
    rw [List.dropWhile_append_of_pos ht, List.dropWhile_cons_of_neg stop]
  rw [run, first, behind]
  rfl

theorem eq_drop_of_fixed? {n k : Nat} {s t : Text} (h : fixed? n s = some (k, t)) :
    t = s.drop n := by
  rw [fixed?] at h
  split at h
  · cases h
    rfl
  · cases h

section

variable {ds : Text} (digits : ∀ c ∈ ds, c.isDigit)

include digits

theorem char?_digits {c : Char} (hc : c.isDigit = false) (n : Nat) :
    char? c (ds.drop n) = none := by
  cases h : ds.drop n with
  | nil => rfl
  | cons d t =>
      have hd : d.isDigit := digits d (List.mem_of_mem_drop (h ▸ List.mem_cons_self))
      rw [char?, if_neg]
      rintro rfl
      rw [hc] at hd
      cases hd

/-- Digits alone are no date and no time. -/
theorem isDatetime_digits : isDatetime ds = false := by
  have time : time? ds = none := by
    rw [time?]
    cases h : fixed? 2 ds with
    | none => rfl
    | some r =>
        obtain ⟨hour, t⟩ := r
        obtain rfl := eq_drop_of_fixed? h
        show (char? ':' (ds.drop 2)).bind _ = none
        rw [char?_digits digits rfl]
        rfl
  have date : date? ds = none := by
    rw [date?]
    cases h : fixed? 4 ds with
    | none => rfl
    | some r =>
        obtain ⟨year, t⟩ := r
        obtain rfl := eq_drop_of_fixed? h
        show (char? '-' (ds.drop 4)).bind _ = none
        rw [char?_digits digits rfl]
        rfl
  simp [isDatetime, time, date]

theorem notMem_of_digits {c : Char} (hc : c.isDigit = false) : c ∉ ds := fun h => by
  rw [digits c h] at hc
  cases hc

theorem sign_digits : sign ds = (false, ds) := by
  rw [sign.eq_def]
  split
  · exact absurd List.mem_cons_self (notMem_of_digits digits rfl)
  · exact absurd List.mem_cons_self (notMem_of_digits digits rfl)
  · rfl

/-- Digits alone are grouped as they stand. -/
theorem ungroup?_digits (hne : ds ≠ []) : ungroup? Char.isDigit ds = some ds := by
  have noBars : '_' ∉ ds := notMem_of_digits digits rfl
  have kept : ds.filter (· ≠ '_') = ds := by
    rw [List.filter_eq_self]
    exact fun c hc => decide_eq_true fun h => noBars (h ▸ hc)
  have first : ds.head? ≠ some '_' := fun h => noBars (List.mem_of_head? h)
  have last : ds.getLast? ≠ some '_' := fun h => noBars (List.mem_of_getLast? h)
  have pairs : ∀ a b, (a, b) ∈ ds.zip ds.tail → a = '_' → ¬ b = '_' := by
    rintro a b hab rfl
    exact absurd (List.of_mem_zip hab).1 noBars
  simp only [ungroup?, kept]
  rw [if_pos ⟨hne, by simpa [first, last] using pairs, List.all_eq_true.mpr digits⟩]

theorem integer?_digits (hne : ds ≠ []) (hzero : ds.length = 1 ∨ ds.head? ≠ some '0') :
    integer? ds = some (Text.toNat ds : Int) := by
  have whole : whole? ds = some ds := by
    rw [whole?, ungroup?_digits digits hne]
    simpa using hzero
  rw [integer?.eq_def]
  split
  · exact absurd (.tail _ List.mem_cons_self) (notMem_of_digits digits (c := 'x') rfl)
  · exact absurd (.tail _ List.mem_cons_self) (notMem_of_digits digits (c := 'o') rfl)
  · exact absurd (.tail _ List.mem_cons_self) (notMem_of_digits digits (c := 'b') rfl)
  · rw [sign_digits digits, whole]
    rfl

end

/-- **A whole number in digits** is read as the number. -/
theorem ofRun?_ofNat {n : Nat} (h : (n : Int) ≤ greatestInteger) :
    ofRun? (Text.ofNat n) = some (.integer n) := by
  have digits : ∀ c ∈ Text.ofNat n, c.isDigit := fun c => Text.isDigit_of_mem_ofNat
  have noLetter {c : Char} (hc : c.isDigit = false) : c ∉ Text.ofNat n := notMem_of_digits digits hc
  have noWord {c : Char} {w : Text} (hc : c.isDigit = false) : Text.ofNat n ≠ c :: w := fun h =>
    noLetter hc (h ▸ List.mem_cons_self)
  have notTrue : Text.ofNat n ≠ "true" := noWord rfl
  have notFalse : Text.ofNat n ≠ "false" := noWord rfl
  have special : isSpecial (sign (Text.ofNat n)).2 = false := by
    rw [sign_digits digits, isSpecial, decide_eq_false_iff_not, not_or]
    exact ⟨noWord rfl, noWord rfl⟩
  have whole : integer? (Text.ofNat n) = some (n : Int) := by
    rw [integer?_digits digits Nat.toDigits_ne_nil, Text.toNat_ofNat]
    by_cases one : (Text.ofNat n).length = 1
    · exact .inl one
    · exact .inr (Text.head?_ofNat one)
  have fits : leastInteger ≤ (n : Int) ∧ (n : Int) ≤ greatestInteger :=
    ⟨by rw [leastInteger]; omega, h⟩
  rw [ofRun?, if_neg notTrue, if_neg notFalse, special, isDatetime_digits digits, whole]
  show some (ofInteger (Text.ofNat n) n) = _
  rw [ofInteger, if_pos fits]

end Scalar

/-! ### Values -/

theorem isBlank_eq_false {c : Char} (space : c ≠ ' ') (tab : c ≠ '\t') : isBlank c = false := by
  simp [isBlank, space, tab]

/-- At the end of a line, a text stands for a value. -/
structure Stands (written : Text) (v : Toml) : Prop where
  front : ∃ c t, written = c :: t ∧ isBlank c = false
  read : ∀ depth steps rest,
    value depth (steps + 1) (written ++ '\n' :: rest) = some (v, '\n' :: rest)

theorem exists_quote (t : Text) :
    ∃ c u, Writer.stringText t = c :: u ∧ (c = '"' ∨ c = '\'') := by
  fun_cases Writer.stringText t with
  | case1 | case3 | case5 | case6 => exact ⟨'"', _, rfl, .inl rfl⟩
  | case2 | case4 => exact ⟨'\'', _, rfl, .inr rfl⟩

/-- A text as it is written. -/
theorem stands_stringText (t : Text) : Stands (Writer.stringText t) (.string t) := by
  obtain ⟨c, u, hu, hc⟩ := exists_quote t
  refine ⟨⟨c, u, hu, ?_⟩, fun depth steps rest => ?_⟩
  · obtain rfl | rfl := hc <;> rfl
  · have read : Quoted.any (Writer.stringText t ++ '\n' :: rest) = some (t, '\n' :: rest) :=
      Quoted.any_stringText t (by simp) (by simp)
    rw [hu, List.cons_append] at read ⊢
    have quoted : value depth (steps + 1) (c :: (u ++ '\n' :: rest)) =
        (Quoted.any (c :: (u ++ '\n' :: rest))).map fun r => (.string r.1, r.2) := by
      obtain rfl | rfl := hc <;> rfl
    rw [quoted, read]
    rfl

theorem value_scalar {c : Char} (hc : c.isAlphanum) (depth steps : Nat) (t : Text) :
    value depth (steps + 1) (c :: t) = Scalar.any (c :: t) := by
  have other {d : Char} {u : Text} (hd : d.isAlphanum = false) : c :: t ≠ d :: u := by
    rintro ⟨⟩
    rw [hc] at hd
    cases hd
  rw [value.eq_def]
  dsimp only
  split
  · exact absurd ‹_› (other rfl)
  · exact absurd ‹_› (other rfl)
  · exact absurd ‹_› (other rfl)
  · exact absurd ‹_› (other rfl)
  · rfl

/-- A run of characters that is read as a value stands for it. -/
theorem Stands.of_run {c : Char} {t : Text} {v : Toml} (hc : c.isAlphanum)
    (ht : (c :: t).all Scalar.isRunChar) (hv : Scalar.ofRun? (c :: t) = some v) :
    Stands (c :: t) v where
  front := by
    refine ⟨c, t, rfl, isBlank_eq_false ?_ ?_⟩
    · rintro rfl
      cases hc
    · rintro rfl
      cases hc
  read depth steps rest := by
    rw [List.cons_append, value_scalar hc, ← List.cons_append, Scalar.any,
      Scalar.run_append (List.all_eq_true.mp ht), hv]
    rfl

theorem stands_boolText (b : Bool) : Stands (Writer.boolText b) (.boolean b) := by
  cases b with
  | true => exact .of_run rfl rfl rfl
  | false => exact .of_run rfl rfl rfl

/-- A number in digits. -/
theorem stands_ofNat {n : Nat} (h : (n : Int) ≤ Scalar.greatestInteger) :
    Stands (Text.ofNat n) (.integer n) := by
  have digits : ∀ d ∈ Text.ofNat n, d.isDigit := fun d => Text.isDigit_of_mem_ofNat
  have read := Scalar.ofRun?_ofNat h
  have nonempty : Text.ofNat n ≠ [] := Nat.toDigits_ne_nil
  obtain ⟨c, t, hct⟩ := List.exists_cons_of_ne_nil nonempty
  rw [hct] at digits read ⊢
  refine .of_run ?_ ?_ read
  · simp [Char.isAlphanum, digits c List.mem_cons_self]
  · refine List.all_eq_true.mpr fun d hd => ?_
    simp [Scalar.isRunChar, Char.isAlphanum, digits d hd]

end EventLog.Toml
