/-!
# Text

Names, values, messages and whole inputs are lists of Unicode characters, so that whatever the
library says about text is said by recursion on it.  Lengths and positions are counted in bytes
of the UTF-8 form (`Text.size`); a position is good when it falls between two characters, and
`Text.dropBytes?` is the text from such a position on.  Numbers are written in decimal, plain
(`Text.ofNat`, `Text.ofInt`) or filled with zeros (`Text.zeroPadded`).
-/

namespace EventLog

/-- Unicode text, character by character. -/
abbrev Text := List Char

/-- A string literal stands for its characters. -/
scoped instance : Coe String Text := ⟨String.toList⟩

namespace Text

/-- The number of bytes of the UTF-8 form. -/
def size : Text → Nat
  | []     => 0
  | c :: t => c.utf8Size + size t

@[simp] theorem size_nil : size [] = 0 := rfl

@[simp] theorem size_cons (c : Char) (t : Text) : size (c :: t) = c.utf8Size + size t := rfl

@[simp] theorem size_append (s t : Text) : size (s ++ t) = size s + size t := by
  induction s with
  | nil => simp
  | cons c s ih => simp [ih, Nat.add_assoc]

/-- What is left of a text behind its first `n` bytes: nothing to be had past its end or inside a
character. -/
def dropBytes? : Nat → Text → Option Text
  | 0, t          => some t
  | _ + 1, []     => none
  | n + 1, c :: t => if c.utf8Size ≤ n + 1 then dropBytes? (n + 1 - c.utf8Size) t else none

@[simp] theorem dropBytes?_zero (t : Text) : dropBytes? 0 t = some t := by
  cases t <;> rfl

/-- The position behind a beginning is good, and the text from there on is the remainder. -/
theorem dropBytes?_append (s t : Text) (n : Nat) :
    dropBytes? (size s + n) (s ++ t) = dropBytes? n t := by
  induction s with
  | nil => simp
  | cons c s ih =>
    have h : size (c :: s) + n = (c.utf8Size + size s + n - 1) + 1 := by
      have := c.utf8Size_pos
      simp; omega
    rw [h, List.cons_append, dropBytes?]
    have := c.utf8Size_pos
    rw [if_pos (by omega), ← ih]
    congr 1
    omega

/-- The decimal digits of a number, without leading zeros. -/
def ofNat (n : Nat) : Text := Nat.toDigits 10 n

/-- The decimal digits of a number, behind a minus sign when it is negative. -/
def ofInt : Int → Text
  | .ofNat n   => ofNat n
  | .negSucc n => '-' :: ofNat (n + 1)

/-- The decimal digits of a number, filled with zeros on the left to a width. -/
def zeroPadded (width n : Nat) : Text :=
  List.replicate (width - (ofNat n).length) '0' ++ ofNat n

/-- The number that a run of decimal digits denotes. -/
def toNat (digits : Text) : Nat := Nat.ofDigitChars 10 digits 0

@[simp] theorem toNat_ofNat (n : Nat) : toNat (ofNat n) = n :=
  Nat.ofDigitChars_ten_toDigits

@[simp] theorem toNat_zeroPadded (width n : Nat) : toNat (zeroPadded width n) = n := by
  have h := toNat_ofNat n
  unfold toNat at h
  simp [toNat, zeroPadded, Nat.ofDigitChars_append, Nat.ofDigitChars_replicate_zero, h]

/-- The value of a hexadecimal digit, of either case. -/
def hexValue? (c : Char) : Option Nat :=
  if '0' ≤ c ∧ c ≤ '9' then some (c.toNat - '0'.toNat)
  else if 'a' ≤ c ∧ c ≤ 'f' then some (c.toNat - 'a'.toNat + 10)
  else if 'A' ≤ c ∧ c ≤ 'F' then some (c.toNat - 'A'.toNat + 10)
  else none

/-- Whether a character is a hexadecimal digit. -/
def isHexDigit (c : Char) : Bool := (hexValue? c).isSome

/-- The number that a run of hexadecimal digits denotes. -/
def ofHex (digits : Text) : Nat :=
  digits.foldl (fun n c => n * 16 + (hexValue? c).getD 0) 0

/-- Two lowercase hexadecimal digits of a byte. -/
def hexByte (n : Nat) : Text := [Nat.digitChar (n / 16 % 16), Nat.digitChar (n % 16)]

/-- Texts one after the other with commas between them. -/
def commaList (ts : List Text) : Text := [','].intercalate ts

/-- The text without the spaces at its front. -/
def dropSpaces (t : Text) : Text := t.dropWhile (· = ' ')

/-! ### Up to a character -/

/-- A text is cut in front of the first place of a character. -/
theorem exists_upTo (c : Char) (t : Text) :
    ∃ front rest, t = front ++ rest ∧ c ∉ front ∧ rest.head?.all (· = c) := by
  induction t with
  | nil => exact ⟨[], [], rfl, nofun, rfl⟩
  | cons d t ih =>
    by_cases hd : d = c
    · exact ⟨[], d :: t, rfl, nofun, by simpa using hd⟩
    · obtain ⟨front, rest, rfl, hfront, hrest⟩ := ih
      exact ⟨d :: front, rest, rfl, by simp [hfront, Ne.symm hd], hrest⟩

section

variable {c : Char} {s rest : Text} (hs : c ∉ s) (hrest : rest.head?.all (· = c))

include hs hrest

/-- A text without a character is what stands in front of this character, or of the end. -/
theorem takeWhile_ne_append : (s ++ rest).takeWhile (· ≠ c) = s := by
  have inside : ∀ d ∈ s, decide (d ≠ c) = true := fun d hd => decide_eq_true fun h => hs (h ▸ hd)
  rw [List.takeWhile_append_of_pos inside]
  cases rest with
  | nil => simp
  | cons d rest => simp_all

theorem dropWhile_ne_append : (s ++ rest).dropWhile (· ≠ c) = rest := by
  have inside : ∀ d ∈ s, decide (d ≠ c) = true := fun d hd => decide_eq_true fun h => hs (h ▸ hd)
  rw [List.dropWhile_append_of_pos inside]
  cases rest with
  | nil => rfl
  | cons d rest => simp_all

end

end Text

end EventLog
