import EventLog.Primitive
import Mathlib.Data.Option.Basic

/-!
# What readers take

A reader takes some characters from the front of a text and leaves the rest.  `Scan.Took` says that
these are at least one.  Nearly all steps that readers are made of take one or more: only a character
that may be skipped and a fraction that may be missing leave, now and then, all there is.  No reader
begins with one of these.

* `Primitive.took_of_reader`: where a reader of any kind finds a value, it has taken something.
-/

namespace EventLog

namespace Scan

/-- At least one character has been taken from the front of a text to leave the rest. -/
def Took (s rest : Text) : Prop := ∃ word, word ≠ [] ∧ s = word ++ rest

theorem Took.suffix {s rest : Text} : Took s rest → rest <:+ s
  | ⟨word, _, h⟩ => ⟨word, h.symm⟩

/-- More may be taken of what is left. -/
theorem Took.further {s r rest : Text} (h : Took s r) (h' : rest <:+ r) : Took s rest := by
  obtain ⟨word, hne, rfl⟩ := h
  obtain ⟨more, rfl⟩ := h'
  exact ⟨word ++ more, by simp [hne], (List.append_assoc ..).symm⟩

theorem Took.trans {s r rest : Text} (h : Took s r) (h' : Took r rest) : Took s rest :=
  h.further h'.suffix

/-- Something may have been left out before. -/
theorem Took.behind {s r rest : Text} (h : Took r rest) (h' : r <:+ s) : Took s rest := by
  obtain ⟨word, hne, rfl⟩ := h
  obtain ⟨front, rfl⟩ := h'
  exact ⟨front ++ word, by simp [hne], (List.append_assoc ..).symm⟩

/-! ### Steps -/

theorem took_dropWhile {p : Char → Bool} {s : Text} (h : s.takeWhile p ≠ []) :
    Took s (s.dropWhile p) :=
  ⟨s.takeWhile p, h, List.takeWhile_append_dropWhile.symm⟩

theorem took_char {c : Char} {s rest : Text} (h : char? c s = some rest) : Took s rest := by
  cases s with
  | nil => cases h
  | cons d s =>
      obtain ⟨-, h⟩ := Option.ite_none_right_eq_some.mp h
      cases h
      exact ⟨[d], List.cons_ne_nil d [], rfl⟩

theorem skip_suffix (c : Char) (s : Text) : skip c s <:+ s := by
  rw [skip]
  cases h : char? c s with
  | none => exact List.suffix_rfl
  | some rest => exact (took_char h).suffix

theorem took_fixed {n k : Nat} (hn : 0 < n) {s rest : Text} (h : fixed? n s = some (k, rest)) :
    Took s rest := by
  obtain ⟨⟨hlen, -⟩, h⟩ := Option.ite_none_right_eq_some.mp h
  cases h
  refine ⟨s.take n, fun hnil => ?_, (List.take_append_drop n s).symm⟩
  rw [hnil] at hlen
  exact Nat.ne_of_lt hn hlen

theorem took_run {max : Nat} {s digits rest : Text} (h : run? max s = some (digits, rest)) :
    Took s rest := by
  obtain ⟨⟨hne, -⟩, h⟩ := Option.ite_none_right_eq_some.mp h
  cases h
  exact took_dropWhile hne

theorem took_number {max n : Nat} {s rest : Text} (h : number? max s = some (n, rest)) :
    Took s rest := by
  obtain ⟨⟨digits, r⟩, hrun, h⟩ := Option.map_eq_some_iff.mp h
  cases h
  exact took_run hrun

end Scan

namespace Primitive

open Scan

/-! ### Parts of values -/

variable {s rest : Text}

theorem took_octet (h : octet? s = some rest) : Took s rest := by
  simp only [octet?, Option.bind_eq_bind, Option.bind_eq_some_iff, Option.pure_def,
    Option.some.injEq, Prod.exists] at h
  obtain ⟨n, r, hn, -, -, rfl⟩ := h
  exact took_number hn

theorem took_date {date : Date} (h : date? s = some (date, rest)) : Took s rest := by
  simp only [date?, Option.bind_eq_bind, Option.bind_eq_some_iff, Option.pure_def,
    Option.some.injEq, Prod.mk.injEq, Prod.exists] at h
  obtain ⟨year, s₁, h₁, s₂, h₂, month, s₃, h₃, s₄, h₄, day, s₅, h₅, -, -, -, rfl⟩ := h
  exact (took_fixed (by decide) h₁).trans <| (took_char h₂).trans <|
    (took_fixed (by decide) h₃).trans <| (took_char h₄).trans <| took_fixed (by decide) h₅

theorem took_clock {clock : Clock} (h : clock? s = some (clock, rest)) : Took s rest := by
  simp only [clock?, Option.bind_eq_bind, Option.bind_eq_some_iff, Option.pure_def,
    Option.some.injEq, Prod.mk.injEq, Prod.exists] at h
  obtain ⟨hour, s₁, h₁, s₂, h₂, minute, s₃, h₃, s₄, h₄, second, s₅, h₅, -, rfl⟩ := h
  exact (took_fixed (by decide) h₁).trans <| (took_char h₂).trans <|
    (took_fixed (by decide) h₃).trans <| (took_char h₄).trans <| took_fixed (by decide) h₅

/-- A fraction may be missing. -/
theorem fraction_suffix {nanos : Nat} (h : fraction? s = some (nanos, rest)) : rest <:+ s := by
  rw [fraction?] at h
  split at h
  · cases h
    exact List.suffix_rfl
  · next r hpoint =>
      obtain ⟨⟨digits, r'⟩, hrun, h⟩ := Option.bind_eq_some_iff.mp h
      cases h
      exact ((took_char hpoint).trans (took_run hrun)).suffix

theorem took_zoneSize {n : Nat} (h : zoneSize? s = some (n, rest)) : Took s rest := by
  simp only [zoneSize?, Option.bind_eq_bind, Option.bind_eq_some_iff, Option.pure_def,
    Option.some.injEq, Prod.mk.injEq, Prod.exists] at h
  obtain ⟨hours, s₁, h₁, s₂, h₂, minutes, s₃, h₃, -, -, -, rfl⟩ := h
  exact (took_fixed (by decide) h₁).trans <| (took_char h₂).trans <| took_fixed (by decide) h₃

theorem took_zone {offset : Int} (h : zone? s = some (offset, rest)) : Took s rest := by
  have signed {c : Char} {r : Text} {sign : Nat × Text → Int × Text}
      (hsign : ∀ size, (sign size).2 = size.2)
      (h : (zoneSize? r).map sign = some (offset, rest)) : Took (c :: r) rest := by
    obtain ⟨⟨n, r'⟩, hn, h⟩ := Option.map_eq_some_iff.mp h
    have left : (sign (n, r')).2 = r' := hsign (n, r')
    rw [h] at left
    subst left
    exact Took.trans ⟨[c], List.cons_ne_nil c [], rfl⟩ (took_zoneSize hn)
  rw [zone?.eq_def] at h
  split at h
  · cases h
    exact ⟨['Z'], List.cons_ne_nil 'Z' [], rfl⟩
  · exact signed (fun _ => rfl) h
  · exact signed (fun _ => rfl) h
  · cases h

theorem took_yearAndHour {year : Option Int} {hour : Nat}
    (h : yearAndHour? s = some (year, hour, rest)) : Took s rest := by
  obtain ⟨⟨n, s₁⟩, h₁, h⟩ := Option.bind_eq_some_iff.mp h
  dsimp only at h
  split at h
  · obtain ⟨s₂, h₂, h⟩ := Option.bind_eq_some_iff.mp h
    obtain ⟨⟨hour', s₃⟩, h₃, h⟩ := Option.bind_eq_some_iff.mp h
    cases h
    exact (took_number h₁).trans <| (took_char h₂).trans <| took_number h₃
  · cases h
    exact took_number h₁

/-! ### Values -/

variable {v : Value}

theorem took_readNumber (h : readNumber s = some (v, rest)) : Took s rest := by
  obtain ⟨⟨hne, -⟩, h⟩ := Option.ite_none_right_eq_some.mp h
  cases h
  exact took_dropWhile hne

theorem took_readWord (h : readWord s = some (v, rest)) : Took s rest := by
  obtain ⟨hne, h⟩ := Option.ite_none_right_eq_some.mp h
  cases h
  exact took_dropWhile hne

theorem took_readTo {delimiter : Char} (h : readTo delimiter s = some (v, rest)) :
    Took s rest := by
  obtain ⟨⟨hne, -⟩, h⟩ := Option.ite_none_right_eq_some.mp h
  cases h
  exact took_dropWhile hne

theorem took_readQuoted (h : readQuoted s = some (v, rest)) : Took s rest := by
  simp only [readQuoted, Option.bind_eq_bind, Option.bind_eq_some_iff, Option.pure_def,
    Option.some.injEq, Prod.mk.injEq] at h
  obtain ⟨s₁, h₁, s₂, h₂, -, rfl⟩ := h
  exact ((took_char h₁).further (List.dropWhile_suffix _)).trans (took_char h₂)

theorem took_readIpv4 (h : readIpv4 s = some (v, rest)) : Took s rest := by
  simp only [readIpv4, Option.bind_eq_bind, Option.bind_eq_some_iff, Option.pure_def,
    Option.some.injEq, Prod.mk.injEq] at h
  obtain ⟨s₁, h₁, p₂, q₂, s₂, h₂, p₃, q₃, s₃, h₃, p₄, q₄, s₄, h₄, -, rfl⟩ := h
  exact (took_octet h₁).trans <| (took_char q₂).trans <| (took_octet h₂).trans <|
    (took_char q₃).trans <| (took_octet h₃).trans <| (took_char q₄).trans <| took_octet h₄

theorem took_readZonedTime (h : readZonedTime s = some (v, rest)) : Took s rest := by
  simp only [readZonedTime, Option.bind_eq_bind, Option.bind_eq_some_iff, Option.pure_def,
    Option.some.injEq, Prod.mk.injEq, Prod.exists] at h
  obtain ⟨date, s₁, h₁, s₂, h₂, clock, s₃, h₃, nanos, s₄, h₄, offset, s₅, h₅, -, -, -, -, -, rfl⟩ := h
  have time : Took s s₃ := (took_date h₁).trans <| (took_char h₂).trans <| took_clock h₃
  exact (time.further (fraction_suffix h₄)).trans (took_zone h₅)

theorem took_readWallTime (h : readWallTime s = some (v, rest)) : Took s rest := by
  simp only [readWallTime, Option.bind_eq_bind, Option.bind_eq_some_iff, Option.pure_def,
    Option.some.injEq, Prod.mk.injEq, Prod.exists] at h
  obtain ⟨month, -, s₁, h₁, day, s₂, h₂, -, -, s₃, h₃, year, hour, s₄, h₄, s₅, h₅, minute, s₆, h₆,
    s₇, h₇, second, s₈, h₈, -, -, -, rfl⟩ := h
  -- The name of the month is dropped without a look at how long it is.
  have day : Took (s.drop 3) s₂ :=
    ((took_char h₁).further (skip_suffix ' ' s₁)).trans (took_number h₂)
  have time : Took s₂ s₈ := (took_char h₃).trans <| (took_yearAndHour h₄).trans <|
    (took_char h₅).trans <| (took_number h₆).trans <| (took_char h₇).trans <| took_number h₈
  exact ((day.trans time).further (skip_suffix ':' s₈)).behind (List.drop_suffix 3 s)

theorem took_readIsoDate (h : readIsoDate s = some (v, rest)) : Took s rest := by
  obtain ⟨⟨date, r⟩, hdate, h⟩ := Option.bind_eq_some_iff.mp h
  cases h
  exact took_date hdate

theorem took_readClock {first last : Nat} (h : readClock first last s = some (v, rest)) :
    Took s rest := by
  simp only [readClock, Option.bind_eq_bind, Option.bind_eq_some_iff, Option.pure_def,
    Option.some.injEq, Prod.mk.injEq, Prod.exists] at h
  obtain ⟨clock, r, hclock, -, -, -, rfl⟩ := h
  exact took_clock hclock

/-- **A reader that finds a value** has taken something from the front. -/
theorem took_of_reader {p : Primitive} {extra : Option Text} {read : Reader}
    (hread : p.reader extra = .ok read) (h : read s = some (v, rest)) : Took s rest := by
  cases p with
  | number => cases hread; exact took_readNumber h
  | word => cases hread; exact took_readWord h
  | charTo =>
      rw [reader] at hread
      split at hread
      · cases hread
        exact took_readTo h
      · cases hread
  | quotedString => cases hread; exact took_readQuoted h
  | ipv4 => cases hread; exact took_readIpv4 h
  | zonedTime => cases hread; exact took_readZonedTime h
  | wallTime => cases hread; exact took_readWallTime h
  | isoDate => cases hread; exact took_readIsoDate h
  | clock24 | clock12 => cases hread; exact took_readClock h

end Primitive

end EventLog
