import EventLog.Text.Utf8

/-!
# Texts and their bytes

The bytes of a text are read back as the text (`decode_encode`), for the machine that reads them is
between characters again behind each of them (`decodeFrom_utf8EncodeChar`).  A byte below 0x80 is a
character wherever it stands: it occurs among the bytes of a text as often as its character does in
the text (`count_encode`), as the first one if its character is the first (`head?_encode`), and as
the last one only if its character is the last (`getLast?_encode`).
-/

namespace EventLog.Utf8

theorem toNat_ofNat {n : Nat} (h : n.isValidChar) : (Char.ofNat n).toNat = n := by
  rw [Char.ofNat, dif_pos h]
  rfl

/-! ### Reading bytes back -/

/-- The first of two bytes. -/
theorem begin_lead2 : ∀ h < 32, 2 ≤ h →
    begin (UInt8.ofNat (h + 0xC0)) = ([], some ⟨h, 0, 0x80, 0xBF⟩) := by
  decide

/-- The first of three bytes. -/
theorem begin_lead3 : ∀ h < 16,
    begin (UInt8.ofNat (h + 0xE0)) =
      ([], some ⟨h, 1, if h = 0 then 0xA0 else 0x80, if h = 0xD then 0x9F else 0xBF⟩) := by
  decide

/-- The first of four bytes. -/
theorem begin_lead4 : ∀ h < 5,
    begin (UInt8.ofNat (h + 0xF0)) =
      ([], some ⟨h, 2, if h = 0 then 0x90 else 0x80, if h = 4 then 0x8F else 0xBF⟩) := by
  decide

section

variable {bits x : Nat} {low high : UInt8} (hx : x < 64) (hlow : low.toNat ≤ x + 0x80)
  (hhigh : x + 0x80 ≤ high.toNat)

include hx hlow hhigh

/-- A byte that continues a character adds six bits to it. -/
theorem step_tail (more : Nat) :
    step (some ⟨bits, more, low, high⟩) (UInt8.ofNat (x + 0x80)) =
      match more with
      | 0     => ([Char.ofNat (bits * 64 + x)], none)
      | n + 1 => ([], some ⟨bits * 64 + x, n, 0x80, 0xBF⟩) := by
  have hb : (UInt8.ofNat (x + 0x80)).toNat = x + 0x80 := by simp; omega
  have fits : low ≤ UInt8.ofNat (x + 0x80) ∧ UInt8.ofNat (x + 0x80) ≤ high := by
    simp only [UInt8.le_iff_toNat_le, hb]
    exact ⟨hlow, hhigh⟩
  cases more <;> simp only [step, if_pos fits, hb, Nat.add_sub_cancel]

theorem decodeFrom_tail (n : Nat) (bs : Bytes) :
    decodeFrom (some ⟨bits, n + 1, low, high⟩) (UInt8.ofNat (x + 0x80) :: bs) =
      decodeFrom (some ⟨bits * 64 + x, n, 0x80, 0xBF⟩) bs := by
  rw [decodeFrom, step_tail hx hlow hhigh]
  rfl

theorem decodeFrom_last (bs : Bytes) :
    decodeFrom (some ⟨bits, 0, low, high⟩) (UInt8.ofNat (x + 0x80) :: bs) =
      Char.ofNat (bits * 64 + x) :: decodeFrom none bs := by
  rw [decodeFrom, step_tail hx hlow hhigh]
  rfl

end

/-- The first byte of several only changes the state. -/
theorem decodeFrom_begin {b : UInt8} {p : Pending} (h : begin b = ([], some p)) (bs : Bytes) :
    decodeFrom none (b :: bs) = decodeFrom (some p) bs := by
  rw [decodeFrom, step, h]
  rfl

/-- Behind the bytes of a character the reader has read it, and nothing else. -/
theorem decodeFrom_utf8EncodeChar (c : Char) (bs : Bytes) :
    decodeFrom none (String.utf8EncodeChar c ++ bs) = c :: decodeFrom none bs := by
  have valid : c.toNat < 0xD800 ∨ 0xDFFF < c.toNat ∧ c.toNat < 0x110000 := c.valid
  have read {n : Nat} (h : n = c.toNat) (t : Text) : Char.ofNat n :: t = c :: t := by
    rw [h, Char.ofNat_toNat]
  fun_cases String.utf8EncodeChar c with
  | case1 v h =>
      have small : v < 0x80 := Nat.lt_succ_of_le h
      have hb : (UInt8.ofNat v).toNat = v := by simp; omega
      have ascii : begin (UInt8.ofNat v) = ([Char.ofNat v], none) := by
        rw [begin, if_pos (UInt8.lt_iff_toNat_lt.mpr (by rw [hb]; exact small)), hb]
      rw [List.singleton_append, decodeFrom, step, ascii]
      exact read rfl _
  | case2 v h₁ h₂ =>
      have hv : v = c.toNat := rfl
      rw [List.cons_append, decodeFrom_begin (begin_lead2 _ (by omega) (by omega)),
        List.singleton_append, decodeFrom_last (by omega) (by simp) (by simp; omega)]
      exact read (by omega) _
  | case3 v h₁ h₂ h₃ =>
      have hv : v = c.toNat := rfl
      rw [List.cons_append, decodeFrom_begin (begin_lead3 _ (by omega)), List.cons_append,
        decodeFrom_tail (by omega) (by split <;> simp; omega) (by split <;> simp <;> omega),
        List.singleton_append, decodeFrom_last (by omega) (by simp) (by simp; omega)]
      exact read (by omega) _
  | case4 v h₁ h₂ h₃ =>
      have hv : v = c.toNat := rfl
      rw [List.cons_append, decodeFrom_begin (begin_lead4 _ (by omega)), List.cons_append,
        decodeFrom_tail (by omega) (by split <;> simp; omega) (by split <;> simp <;> omega),
        List.cons_append, decodeFrom_tail (by omega) (by simp) (by simp; omega),
        List.singleton_append, decodeFrom_last (by omega) (by simp) (by simp; omega)]
      exact read (by omega) _

theorem decodeFrom_encode (t : Text) (bs : Bytes) :
    decodeFrom none (encode t ++ bs) = t ++ decodeFrom none bs := by
  induction t with
  | nil => rfl
  | cons c t ih =>
      rw [encode_cons, List.append_assoc, decodeFrom_utf8EncodeChar, ih, List.cons_append]

/-- **The bytes of a text are read back as the text.** -/
theorem decode_encode (t : Text) : decode (encode t) = t := by
  have read := decodeFrom_encode t []
  rwa [List.append_nil, decodeFrom, Option.isSome_none, if_neg Bool.false_ne_true,
    List.append_nil] at read

/-- A text whose bytes begin with those of a word begins with the word. -/
theorem exists_of_encode {t word : Text} {bs : Bytes} (h : encode t = encode word ++ bs) :
    ∃ rest, t = word ++ rest :=
  ⟨decodeFrom none bs, by rw [← decode_encode t, h, decode, decodeFrom_encode]⟩

/-- A text has as many bytes as its size says. -/
theorem length_encode (t : Text) : (encode t).length = t.size := by
  induction t with
  | nil => rfl
  | cons c t ih =>
      rw [encode_cons, List.length_append, String.length_utf8EncodeChar, ih, Text.size_cons]

/-! ### Bytes below 0x80 -/

/-- A text that is written character by character has as many of one thing as it has of a character
if that is so for each of its characters. -/
theorem count_flatMap_of_char {β : Type} [BEq β] {write : Char → List β} {b : β} {a : Char}
    (h : ∀ c, (write c).count b = [c].count a) (t : Text) :
    (t.flatMap write).count b = t.count a := by
  induction t with
  | nil => rfl
  | cons c t ih =>
      rw [List.flatMap_cons, List.count_append, h, ih, ← List.count_append]
      rfl

section

variable {a : Char} (ha : a.toNat < 0x80)

include ha

/-- A byte below 0x80 is among those of a character only if it is the character. -/
theorem count_utf8EncodeChar (c : Char) :
    (String.utf8EncodeChar c).count (UInt8.ofNat a.toNat) = [c].count a := by
  have hb : (UInt8.ofNat a.toNat).toNat = a.toNat := by simp; omega
  fun_cases String.utf8EncodeChar c with
  | case1 v hv =>
      have same : UInt8.ofNat v = UInt8.ofNat a.toNat ↔ c = a := by
        rw [← UInt8.toNat_inj, hb, Char.ext_iff, ← UInt32.toNat_inj]
        simp [v] at hv ⊢
        omega
      simp [List.count_singleton, same]
  | case2 v hv | case3 v hv | case4 v hv =>
      have hc : c ≠ a := by
        rintro rfl
        exact hv (Nat.le_of_lt_succ ha)
      -- All bytes have their highest bit set.
      simp [List.count_cons, hc, ← UInt8.toNat_inj, hb]
      omega

/-- A byte below 0x80 occurs as often as its character. -/
theorem count_encode (t : Text) : (encode t).count (UInt8.ofNat a.toNat) = t.count a :=
  count_flatMap_of_char (count_utf8EncodeChar ha) t

theorem mem_encode (t : Text) : UInt8.ofNat a.toNat ∈ encode t ↔ a ∈ t := by
  rw [← List.count_pos_iff, count_encode ha, List.count_pos_iff]

theorem utf8EncodeChar_of_ascii : String.utf8EncodeChar a = [UInt8.ofNat a.toNat] := by
  fun_cases String.utf8EncodeChar a with
  | case1 v hv => rfl
  | case2 v hv | case3 v hv | case4 v hv => exact absurd (Nat.le_of_lt_succ ha) hv

/-- A byte below 0x80 is the first one if its character is the first. -/
theorem head?_encode {t : Text} :
    (encode t).head? = some (UInt8.ofNat a.toNat) ↔ t.head? = some a := by
  have hb : (UInt8.ofNat a.toNat).toNat = a.toNat := by simp; omega
  constructor
  · intro h
    obtain ⟨v, rfl, -⟩ := eq_cons_of_head? h (by rwa [hb])
    rw [hb, Char.ofNat_toNat]
    rfl
  · intro h
    obtain ⟨v, rfl⟩ := List.head?_eq_some_iff.mp h
    rw [encode_cons, utf8EncodeChar_of_ascii ha]
    rfl

/-- A byte below 0x80 is the last one only if its character is the last. -/
theorem getLast?_encode {t : Text} (h : (encode t).getLast? = some (UInt8.ofNat a.toNat)) :
    t.getLast? = some a := by
  rcases t.eq_nil_or_concat with rfl | ⟨s, c, rfl⟩
  · cases h
  · rw [List.concat_eq_append] at h ⊢
    rw [encode_append, encode_cons, encode_nil, List.append_nil, List.getLast?_append,
      List.getLast?_eq_some_getLast String.utf8EncodeChar_ne_nil, Option.some_or] at h
    have mem : UInt8.ofNat a.toNat ∈ String.utf8EncodeChar c :=
      Option.some.inj h ▸ List.getLast_mem _
    rw [← List.count_pos_iff, count_utf8EncodeChar ha, List.count_pos_iff] at mem
    rw [List.getLast?_concat, List.mem_singleton.mp mem]

end

end EventLog.Utf8
