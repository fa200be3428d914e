import EventLog.Text

/-!
# The UTF-8 form of text

`Utf8.encode` is the byte form of a text.  `Utf8.decode` reads any bytes: every maximal beginning
of a character that cannot be finished is read as one replacement character U+FFFD, so that a
broken byte costs as little of its surroundings as possible.

Reading is a machine that takes one byte at a time.  Between characters its state is empty;
inside one it holds the bits read so far, how many bytes are missing and the range the next one
must fall in (`Utf8.Pending`).  The range is narrower for the second byte behind `E0`, `ED`, `F0`
and `F4`, which keeps out overlong forms, surrogates and numbers past the last code point.
-/

namespace EventLog

/-- A string of bytes. -/
abbrev Bytes := List UInt8

namespace Utf8

/-- The bytes of a text. -/
def encode (t : Text) : Bytes := t.flatMap String.utf8EncodeChar

@[simp] theorem encode_nil : encode [] = [] := rfl

@[simp] theorem encode_cons (c : Char) (t : Text) :
    encode (c :: t) = String.utf8EncodeChar c ++ encode t := rfl

@[simp] theorem encode_append (t u : Text) : encode (t ++ u) = encode t ++ encode u :=
  List.flatMap_append

/-- A byte below 0x80 is a character of its own, and begins no other. -/
theorem utf8EncodeChar_ascii {c : Char} {b : UInt8} {bs : Bytes}
    (h : String.utf8EncodeChar c = b :: bs) (hb : b.toNat < 0x80) :
    b.toNat = c.toNat ∧ bs = [] := by
  revert h
  fun_cases String.utf8EncodeChar c with
  | case1 v hv =>
      rintro ⟨⟩
      refine ⟨?_, rfl⟩
      simp [v] at hv ⊢
      omega
  | case2 _ _ _ | case3 _ _ _ _ | case4 _ _ _ _ =>
      -- The first of several bytes has its highest bit set.
      rintro ⟨⟩
      simp at hb
      omega

/-- A text whose bytes begin with one below 0x80 begins with its character. -/
theorem eq_cons_of_head? {t : Text} {b : UInt8} (h : (encode t).head? = some b)
    (hb : b.toNat < 0x80) : ∃ v, t = Char.ofNat b.toNat :: v ∧ encode t = b :: encode v := by
  cases t with
  | nil => simp at h
  | cons c v =>
      obtain ⟨b', bs, hc⟩ := List.exists_cons_of_ne_nil (String.utf8EncodeChar_ne_nil (c := c))
      rw [encode_cons, hc] at h ⊢
      obtain rfl := Option.some.inj h
      obtain ⟨hn, rfl⟩ := utf8EncodeChar_ascii hc hb
      exact ⟨v, by rw [hn, Char.ofNat_toNat], rfl⟩

/-- Stands for bytes that are no character. -/
def replacement : Char := '\uFFFD'

/-- A character under way. -/
structure Pending where
  /-- The bits read so far. -/
  bits : Nat
  /-- The number of bytes behind the next one. -/
  more : Nat
  /-- The least next byte. -/
  low : UInt8
  /-- The greatest next byte. -/
  high : UInt8
deriving Repr, DecidableEq

/-- What the first byte of a character gives: the character itself, or one under way. -/
def begin (b : UInt8) : Text × Option Pending :=
  if b < 0x80 then ([Char.ofNat b.toNat], none)
  else if b < 0xC2 then ([replacement], none)
  else if b < 0xE0 then ([], some ⟨b.toNat - 0xC0, 0, 0x80, 0xBF⟩)
  else if b = 0xE0 then ([], some ⟨0, 1, 0xA0, 0xBF⟩)
  else if b = 0xED then ([], some ⟨0xD, 1, 0x80, 0x9F⟩)
  else if b < 0xF0 then ([], some ⟨b.toNat - 0xE0, 1, 0x80, 0xBF⟩)
  else if b = 0xF0 then ([], some ⟨0, 2, 0x90, 0xBF⟩)
  else if b < 0xF4 then ([], some ⟨b.toNat - 0xF0, 2, 0x80, 0xBF⟩)
  else if b = 0xF4 then ([], some ⟨4, 2, 0x80, 0x8F⟩)
  else ([replacement], none)

/-- One byte further: the characters this settles, and the state behind it. -/
def step (state : Option Pending) (b : UInt8) : Text × Option Pending :=
  match state with
  | none   => begin b
  | some p =>
    if p.low ≤ b ∧ b ≤ p.high then
      let bits := p.bits * 64 + (b.toNat - 0x80)
      match p.more with
      | 0     => ([Char.ofNat bits], none)
      | n + 1 => ([], some ⟨bits, n, 0x80, 0xBF⟩)
    else (replacement :: (begin b).1, (begin b).2)

/-- The text of the bytes that follow a state. -/
def decodeFrom (state : Option Pending) : Bytes → Text
  | []      => if state.isSome then [replacement] else []
  | b :: bs => (step state b).1 ++ decodeFrom (step state b).2 bs

/-- The text that bytes stand for, broken parts replaced. -/
def decode (bytes : Bytes) : Text := decodeFrom none bytes

end Utf8

end EventLog
