import EventLog.Text
import Mathlib.Algebra.Group.Nat.Defs
import Mathlib.Data.List.Induction

/-!
# Numbers as they are written

A numeral is a text of decimal digits, of a length between two bounds.  Leading zeros count towards
the length and not towards the number, so a number below `10 ^ n` has exactly one numeral of `n`
digits: `Text.zeroPadded n` (`numeral_iff_eq_zeroPadded`).

What stands behind a numeral must not begin with a digit for the numeral to end there
(`Text.EndsDigits`); two numerals in front of such texts are the same if the whole texts are
(`digits_append_inj`).
-/

namespace EventLog.Text

/-- A text of at least `least` and at most `most` decimal digits. -/
structure Numeral (least most : Nat) (ds : Text) : Prop where
  digits : ∀ c ∈ ds, c.isDigit
  least : least ≤ ds.length
  most : ds.length ≤ most

theorem numeral_iff {least most : Nat} {ds : Text} :
    Numeral least most ds ↔ ds.all Char.isDigit ∧ least ≤ ds.length ∧ ds.length ≤ most :=
  ⟨fun h => ⟨List.all_eq_true.mpr h.digits, h.least, h.most⟩,
    fun ⟨digits, least, most⟩ => ⟨List.all_eq_true.mp digits, least, most⟩⟩

instance (least most : Nat) (ds : Text) : Decidable (Numeral least most ds) :=
  decidable_of_iff _ numeral_iff.symm

/-- A text that does not begin with a digit. -/
def EndsDigits (rest : Text) : Prop := rest.head?.all fun c => !c.isDigit

theorem endsDigits_cons {c : Char} (h : c.isDigit = false) (rest : Text) :
    EndsDigits (c :: rest) := by
  simp [EndsDigits, h]

/-! ### The number that digits denote -/

theorem toNat_append (ds es : Text) : toNat (ds ++ es) = 10 ^ es.length * toNat ds + toNat es := by
  rw [toNat, Nat.ofDigitChars_append, Nat.ofDigitChars_eq_ofDigitChars_zero]
  rfl

theorem toNat_singleton (c : Char) : toNat [c] = c.toNat - '0'.toNat := by
  simp [toNat, Nat.ofDigitChars_cons]

theorem toNat_singleton_lt {c : Char} (h : c.isDigit) : toNat [c] < 10 := by
  have digit := Char.isDigit_iff_toNat.mp h
  rw [toNat_singleton]
  simp at digit ⊢
  omega

theorem toNat_lt {ds : Text} (h : ∀ c ∈ ds, c.isDigit) : toNat ds < 10 ^ ds.length := by
  induction ds using List.reverseRecOn with
  | nil => decide
  | append_singleton ds c ih =>
      simp only [List.forall_mem_append, List.forall_mem_singleton] at h
      have front := ih h.1
      have last := toNat_singleton_lt h.2
      rw [toNat_append, List.length_append, List.length_singleton, Nat.pow_succ]
      omega

/-- A digit is known from its value. -/
theorem eq_of_toNat_singleton {c d : Char} (hc : c.isDigit) (hd : d.isDigit)
    (h : toNat [c] = toNat [d]) : c = d := by
  have digits := And.intro (Char.isDigit_iff_toNat.mp hc) (Char.isDigit_iff_toNat.mp hd)
  rw [toNat_singleton, toNat_singleton] at h
  exact Char.toNat_inj.mp (by omega)

/-- Digits are known from their number and from how many they are. -/
theorem eq_of_toNat {ds es : Text} (hds : ∀ c ∈ ds, c.isDigit) (hes : ∀ c ∈ es, c.isDigit)
    (length : ds.length = es.length) (value : toNat ds = toNat es) : ds = es := by
  induction ds using List.reverseRecOn generalizing es with
  | nil => exact (List.length_eq_zero_iff.mp length.symm).symm
  | append_singleton ds c ih =>
      obtain rfl | ⟨es, d, rfl⟩ := List.eq_nil_or_concat es
      · simp at length
      rw [List.concat_eq_append] at hes length value ⊢
      simp only [List.forall_mem_append, List.forall_mem_singleton] at hds hes
      rw [toNat_append, toNat_append] at value
      have hc := toNat_singleton_lt hds.2
      have hd := toNat_singleton_lt hes.2
      have front : ds = es := ih hds.1 hes.1 (by simpa using length) (by simp at value; omega)
      have last : c = d := eq_of_toNat_singleton hds.2 hes.2 (by simp at value; omega)
      rw [front, last]

/-! ### Numbers filled with zeros -/

theorem isDigit_of_mem_ofNat {n : Nat} {c : Char} (h : c ∈ ofNat n) : c.isDigit :=
  Nat.isDigit_of_mem_toDigits (by decide) (by decide) h

theorem numeral_ofNat {n most : Nat} (hmost : 0 < most) (h : n < 10 ^ most) :
    Numeral 1 most (ofNat n) where
  digits _ hc := isDigit_of_mem_ofNat hc
  least := Nat.length_toDigits_pos
  most := (Nat.length_toDigits_le_iff (by decide) hmost).mpr h

/-- A number has no zeros in front, unless it is zero. -/
theorem head?_ofNat {n : Nat} (h : (ofNat n).length ≠ 1) : (ofNat n).head? ≠ some '0' := by
  intro zero
  obtain ⟨ds, hds⟩ : ∃ ds, ofNat n = '0' :: ds := List.head?_eq_some_iff.mp zero
  have behind : ds ≠ [] := by
    rintro rfl
    exact h (by rw [hds]; rfl)
  have digits : ∀ c ∈ ds, c.isDigit := fun c hc =>
    isDigit_of_mem_ofNat (hds ▸ List.mem_cons_of_mem '0' hc)
  have value : toNat ds = n := by
    rw [← toNat_ofNat n, hds, ← List.singleton_append, toNat_append, toNat_singleton]
    simp
  -- So few digits are enough for the number that it is not written with one more.
  have short : (ofNat n).length ≤ ds.length :=
    (Nat.length_toDigits_le_iff (by decide) (List.length_pos_iff.mpr behind)).mpr
      (value ▸ toNat_lt digits)
  rw [hds, List.length_cons] at short
  omega

theorem isDigit_of_mem_zeroPadded {n k : Nat} {c : Char} (h : c ∈ zeroPadded n k) : c.isDigit := by
  rcases List.mem_append.mp h with zero | digit
  · rw [List.eq_of_mem_replicate zero]
    rfl
  · exact isDigit_of_mem_ofNat digit

theorem zeroPadded_ne_nil (n k : Nat) : zeroPadded n k ≠ [] := by
  intro h
  have none : ofNat k = [] := (List.append_eq_nil_iff.mp h).2
  exact absurd (congrArg List.length none) (Nat.ne_of_gt Nat.length_toDigits_pos)

theorem numeral_zeroPadded {n k : Nat} (hn : 0 < n) (h : k < 10 ^ n) :
    Numeral n n (zeroPadded n k) := by
  have length : (zeroPadded n k).length = n := by
    have := (numeral_ofNat hn h).most
    rw [zeroPadded, List.length_append, List.length_replicate]
    omega
  exact ⟨fun _ => isDigit_of_mem_zeroPadded, Nat.le_of_eq length.symm, Nat.le_of_eq length⟩

theorem length_zeroPadded {n k : Nat} (hn : 0 < n) (h : k < 10 ^ n) : (zeroPadded n k).length = n :=
  Nat.le_antisymm (numeral_zeroPadded hn h).most (numeral_zeroPadded hn h).least

/-- The numerals of `n` digits are the numbers below `10 ^ n`, filled with zeros. -/
theorem numeral_iff_eq_zeroPadded {n : Nat} (hn : 0 < n) {ds : Text} :
    Numeral n n ds ↔ toNat ds < 10 ^ n ∧ ds = zeroPadded n (toNat ds) := by
  constructor
  · intro h
    have length : ds.length = n := Nat.le_antisymm h.most h.least
    have small : toNat ds < 10 ^ n := length ▸ toNat_lt h.digits
    refine ⟨small, eq_of_toNat h.digits (numeral_zeroPadded hn small).digits ?_ ?_⟩
    · rw [length, length_zeroPadded hn small]
    · rw [toNat_zeroPadded]
  · rintro ⟨small, h⟩
    rw [h]
    exact numeral_zeroPadded hn small

/-- A text of digits is a number filled with zeros. -/
theorem digits_iff_exists_zeroPadded {ds : Text} {k : Nat} :
    (ds ≠ [] ∧ (∀ c ∈ ds, c.isDigit) ∧ toNat ds = k) ↔ ∃ n, ds = zeroPadded n k := by
  constructor
  · rintro ⟨hne, digits, rfl⟩
    have numeral : Numeral ds.length ds.length ds := ⟨digits, Nat.le_refl _, Nat.le_refl _⟩
    exact ⟨_, ((numeral_iff_eq_zeroPadded (List.length_pos_iff.mpr hne)).mp numeral).2⟩
  · rintro ⟨n, rfl⟩
    exact ⟨zeroPadded_ne_nil n k, fun _ => isDigit_of_mem_zeroPadded, toNat_zeroPadded n k⟩

/-! ### In front of other text -/

section

variable {ds rest : Text} (digits : ∀ c ∈ ds, c.isDigit) (ends : EndsDigits rest)

include digits ends

theorem takeWhile_isDigit_append : (ds ++ rest).takeWhile Char.isDigit = ds := by
  rw [List.takeWhile_append_of_pos digits]
  cases rest with
  | nil => simp
  | cons c rest => simp_all [EndsDigits]

theorem dropWhile_isDigit_append : (ds ++ rest).dropWhile Char.isDigit = rest := by
  rw [List.dropWhile_append_of_pos digits]
  cases rest with
  | nil => rfl
  | cons c rest => simp_all [EndsDigits]

end

theorem endsDigits_dropWhile (s : Text) : EndsDigits (s.dropWhile Char.isDigit) := by
  have := List.head?_dropWhile_not Char.isDigit s
  rw [EndsDigits]
  cases h : (s.dropWhile Char.isDigit).head? with
  | none => rfl
  | some c => simpa [h] using this

/-- Digits in front of what is no digit are where the digits of the whole text end. -/
theorem digits_append_inj {ds es r r' : Text} (hds : ∀ c ∈ ds, c.isDigit)
    (hes : ∀ c ∈ es, c.isDigit) (hr : EndsDigits r) (hr' : EndsDigits r')
    (h : ds ++ r = es ++ r') : ds = es ∧ r = r' := by
  have front : ds = es := by
    rw [← takeWhile_isDigit_append hds hr, h, takeWhile_isDigit_append hes hr']
  subst front
  exact ⟨rfl, List.append_cancel_left h⟩

end EventLog.Text
