import EventLog.Proofs.Text.Backslash
import Mathlib.Algebra.Group.Nat.Defs

/-!
# The parts of a line

Here it is said without cutting a line which parts it has and which bytes they stand for.  `Front`
says of a part which rest may follow it: no more digits may follow than belong to the part.
`Divides` puts parts side by side.

* `exists_divides`: every line is divided into parts.
* `unescape_division`: there is one division of a line, and the line stands for the text of its
  bytes.
-/

namespace EventLog.Backslash

/-! ### Which parts there are -/

/-- The characters that name a byte behind a backslash. -/
def names : List (Char × UInt8) :=
  [('a', 0x07), ('b', 0x08), ('f', 0x0C), ('n', 0x0A), ('r', 0x0D), ('t', 0x09), ('v', 0x0B),
    ('\'', 0x27), ('"', 0x22), ('?', 0x3F), ('\\', 0x5C)]

/-- Digits in front of a rest, as many as there are but not more than some number. -/
structure Run (isDigit : Char → Bool) (n : Nat) (ds rest : Text) : Prop where
  digits : ds.all isDigit
  most : ds.length ≤ n
  longest : ds.length < n → rest.head?.all fun c => !isDigit c

/-- Hexadecimal digits of some number. -/
structure HexDigits (n : Nat) (ds : Text) : Prop where
  length : ds.length = n
  all : ds.all Text.isHexDigit

/-- A text that begins with hexadecimal digits of some number. -/
def BeginsHex (n : Nat) (t : Text) : Prop := ∃ ds rest, HexDigits n ds ∧ t = ds ++ rest

/-- The parts that may stand in front of a rest, and the bytes they stand for. -/
inductive Front : Part → Text → Bytes → Prop where
  | plain {c : Char} {rest : Text} (other : c ≠ '\\') : Front (.plain c) rest (Utf8.encode [c])
  | named {c : Char} {b : UInt8} {rest : Text} (name : (c, b) ∈ names) : Front (.named c b) rest [b]
  | octal {ds rest : Text} {b : UInt8} (some : ds ≠ []) (run : Run isOctalDigit 3 ds rest)
      (value : b.toNat = ofOctal ds % 256) : Front (.octal ds) rest [b]
  | codePoint {ds rest : Text} {c : Char} (digits : HexDigits 4 ds)
      (value : c.toNat = Text.ofHex ds) : Front (.codePoint ds) rest (Utf8.encode [c])
  /-- A surrogate is no character. -/
  | surrogate {ds rest : Text} (digits : HexDigits 4 ds)
      (range : 0xD800 ≤ Text.ofHex ds ∧ Text.ofHex ds < 0xE000) :
      Front (.codePoint ds) rest (Utf8.encode ('\\' :: 'x' :: ds))
  | byte {ds rest : Text} {b : UInt8} (digits : HexDigits 2 ds) (further : ¬ BeginsHex 2 rest)
      (value : b.toNat = Text.ofHex ds) : Front (.byte ds) rest [b]
  /-- An `x` without the digits it needs. -/
  | cut {rest : Text} (further : ¬ BeginsHex 2 rest) :
      Front (.unknown 'x') rest (Utf8.encode ['\\', 'x'])
  | unknown {c : Char} {rest : Text} (name : c ∉ names.map Prod.fst)
      (digit : isOctalDigit c = false) (x : c ≠ 'x') :
      Front (.unknown c) rest (Utf8.encode ['\\', c])
  | lone : Front .lone [] (Utf8.encode ['\\'])

/-- A line is divided into parts, and these stand for some bytes. -/
inductive Divides : Text → List Part → Bytes → Prop where
  | nil : Divides [] [] []
  | cons {p : Part} {rest : Text} {bs bs' : Bytes} {ps : List Part} (front : Front p rest bs)
      (further : Divides rest ps bs') : Divides (p.written ++ rest) (p :: ps) (bs ++ bs')

/-! ### Digits -/

theorem hexValue_lt (c : Char) : (Text.hexValue? c).getD 0 < 16 := by
  fun_cases Text.hexValue? c with
  | case1 h | case2 _ h | case3 _ _ h =>
      have digit : c.toNat ≤ _ := h.2
      simp at digit ⊢
      omega
  | case4 => decide

theorem ofHex_lt (ds : Text) : Text.ofHex ds < 16 ^ ds.length := by
  have further (n : Nat) :
      ds.foldl (fun n c => n * 16 + (Text.hexValue? c).getD 0) n < (n + 1) * 16 ^ ds.length := by
    induction ds generalizing n with
    | nil => simp
    | cons c ds ih =>
        have next : n * 16 + (Text.hexValue? c).getD 0 + 1 ≤ (n + 1) * 16 := by
          have := hexValue_lt c
          omega
        calc
          _ < (n * 16 + (Text.hexValue? c).getD 0 + 1) * 16 ^ ds.length := ih _
          _ ≤ (n + 1) * 16 * 16 ^ ds.length := Nat.mul_le_mul_right _ next
          _ = (n + 1) * 16 ^ (c :: ds).length := by
            rw [List.length_cons, Nat.pow_succ', Nat.mul_assoc]
  simpa [Text.ofHex] using further 0

section

variable {isDigit : Char → Bool}

theorem exists_run (isDigit : Char → Bool) (n : Nat) (t : Text) :
    ∃ ds rest, t = ds ++ rest ∧ Run isDigit n ds rest := by
  induction n generalizing t with
  | zero => exact ⟨[], t, rfl, rfl, Nat.le_refl 0, nofun⟩
  | succ n ih =>
      match t with
      | [] => exact ⟨[], [], rfl, rfl, Nat.zero_le _, fun _ => rfl⟩
      | c :: t =>
          by_cases hc : isDigit c
          · obtain ⟨ds, rest, rfl, run⟩ := ih t
            exact ⟨c :: ds, rest, rfl,
              { digits := by simpa [hc] using run.digits
                most := Nat.succ_le_succ run.most
                longest := fun h => run.longest (Nat.lt_of_succ_lt_succ h) }⟩
          · exact ⟨[], c :: t, rfl, rfl, Nat.zero_le _, fun _ => by simpa using hc⟩

/-- Digits in front of a text belong to the run at its front. -/
theorem takeWhile_take_append {ds : Text} (digits : ds.all isDigit) (n : Nat) (rest : Text) :
    ((ds ++ rest).take (ds.length + n)).takeWhile isDigit =
      ds ++ (rest.take n).takeWhile isDigit := by
  rw [List.take_length_add_append, List.takeWhile_append_of_pos (List.all_eq_true.mp digits)]

theorem Run.takeWhile_take {n : Nat} {ds rest : Text} (run : Run isDigit n ds rest) :
    ((ds ++ rest).take n).takeWhile isDigit = ds := by
  obtain ⟨k, rfl⟩ := Nat.exists_eq_add_of_le run.most
  have none : (rest.take k).takeWhile isDigit = [] := by
    match k, rest, run.longest with
    | 0, _, _               => rfl
    | _ + 1, [], _          => rfl
    | k + 1, c :: _, longest =>
        have other : isDigit c = false := by simpa using longest
        rw [List.take_succ_cons, List.takeWhile_cons_of_neg (by simp [other])]
  rw [takeWhile_take_append run.digits, none, List.append_nil]

end

/-- A text begins with some number of digits if so many are found, whatever else is looked for. -/
theorem beginsHex_iff {n k : Nat} {t : Text} :
    BeginsHex n t ↔ n ≤ ((t.take (n + k)).takeWhile Text.isHexDigit).length := by
  constructor
  · rintro ⟨ds, rest, ⟨rfl, all⟩, rfl⟩
    rw [takeWhile_take_append all, List.length_append]
    exact Nat.le_add_right _ _
  · obtain ⟨ds, rest, rfl, run⟩ := exists_run Text.isHexDigit (n + k) t
    rw [run.takeWhile_take]
    intro h
    refine ⟨ds.take n, ds.drop n ++ rest, ⟨List.length_take_of_le h, ?_⟩, ?_⟩
    · exact List.all_eq_true.mpr fun c hc =>
        List.all_eq_true.mp run.digits c (List.mem_of_mem_take hc)
    · rw [← List.append_assoc, List.take_append_drop]

/-! ### Every line is divided -/

theorem exists_front (c : Char) (t : Text) :
    ∃ p w rest bs, Part.written p = c :: w ∧ t = w ++ rest ∧ Front p rest bs := by
  by_cases hc : c = '\\'
  case neg => exact ⟨.plain c, [], t, _, rfl, rfl, .plain hc⟩
  subst hc
  match t with
  | [] => exact ⟨.lone, [], [], _, rfl, rfl, .lone⟩
  | d :: t =>
      by_cases name : d ∈ names.map Prod.fst
      · obtain ⟨⟨_, b⟩, hb, rfl⟩ := List.mem_map.mp name
        exact ⟨.named _ b, [_], t, _, rfl, rfl, .named hb⟩
      by_cases digit : isOctalDigit d
      · obtain ⟨ds, rest, ht, run⟩ := exists_run isOctalDigit 3 (d :: t)
        have some : ds ≠ [] := by
          rintro rfl
          rw [List.nil_append] at ht
          simpa [← ht, digit] using run.longest (by decide)
        exact ⟨.octal ds, ds, rest, [UInt8.ofNat (ofOctal ds)], rfl, ht, .octal some run (by simp)⟩
      by_cases x : d = 'x'
      case neg =>
        have other : isOctalDigit d = false := by simpa using digit
        exact ⟨.unknown d, [d], t, _, rfl, rfl, .unknown name other x⟩
      subst x
      by_cases four : BeginsHex 4 t
      · obtain ⟨ds, rest, digits, rfl⟩ := four
        have small : Text.ofHex ds < 16 ^ 4 := digits.length ▸ ofHex_lt ds
        by_cases valid : (Text.ofHex ds).isValidChar
        · exact ⟨.codePoint ds, 'x' :: ds, rest, _, rfl, rfl,
            .codePoint digits (Utf8.toNat_ofNat valid)⟩
        · refine ⟨.codePoint ds, 'x' :: ds, rest, _, rfl, rfl, .surrogate digits ?_⟩
          unfold Nat.isValidChar at valid
          omega
      by_cases two : BeginsHex 2 t
      · obtain ⟨ds, rest, digits, rfl⟩ := two
        have small : Text.ofHex ds < 16 ^ 2 := digits.length ▸ ofHex_lt ds
        have further : ¬ BeginsHex 2 rest := by
          rintro ⟨ds', rest', digits', rfl⟩
          refine four ⟨ds ++ ds', rest', ⟨?_, ?_⟩, by rw [List.append_assoc]⟩
          · rw [List.length_append, digits.length, digits'.length]
          · rw [List.all_append, digits.all, digits'.all]
            rfl
        refine ⟨.byte ds, 'x' :: ds, rest, [UInt8.ofNat (Text.ofHex ds)], rfl, rfl,
          .byte digits further ?_⟩
        simpa using small
      · exact ⟨.unknown 'x', ['x'], t, _, rfl, rfl, .cut two⟩

/-- **Every line is divided into parts.** -/
theorem exists_divides (line : Text) : ∃ ps bs, Divides line ps bs := by
  match line with
  | [] => exact ⟨[], [], .nil⟩
  | c :: t =>
      obtain ⟨p, w, rest, bs, written, rfl, front⟩ := exists_front c t
      have shorter : rest.length < (c :: (w ++ rest)).length := by
        rw [List.length_cons, List.length_append]
        omega
      obtain ⟨ps, bs', further⟩ := exists_divides rest
      refine ⟨p :: ps, bs ++ bs', ?_⟩
      rw [← List.cons_append, ← written]
      exact .cons front further
termination_by line.length

/-! ### The parts that are read -/

theorem named?_eq_some_of_mem {c : Char} {b : UInt8} (h : (c, b) ∈ names) : named? c = some b := by
  have all : ∀ p ∈ names, named? p.1 = some p.2 := by decide
  exact all _ h

theorem named?_eq_none {c : Char} (h : c ∉ names.map Prod.fst) : named? c = none := by
  revert h
  fun_cases named? c with
  | case12 => exact fun _ => rfl
  | _ => exact fun h => absurd (by decide) h

/-- An octal digit names no byte. -/
theorem notMem_names_of_octal {c : Char} (h : isOctalDigit c) : c ∉ names.map Prod.fst := by
  intro name
  have none : ((names.map Prod.fst).any isOctalDigit) = false := by decide
  exact List.any_eq_false.mp none c name h

theorem hexPart_codePoint {ds : Text} (digits : HexDigits 4 ds) (rest : Text) :
    hexPart (ds ++ rest) = .codePoint ds := by
  have run : Run Text.isHexDigit 4 ds rest :=
    ⟨digits.all, Nat.le_of_eq digits.length, fun h => absurd digits.length (Nat.ne_of_lt h)⟩
  rw [hexPart, run.takeWhile_take, if_pos digits.length]

theorem hexPart_byte {ds rest : Text} (digits : HexDigits 2 ds) (further : ¬ BeginsHex 2 rest) :
    hexPart (ds ++ rest) = .byte ds := by
  have found := takeWhile_take_append digits.all 2 rest
  have short := mt (beginsHex_iff (k := 0)).mpr further
  rw [digits.length] at found
  rw [hexPart, found, if_neg, if_pos]
  · rw [← digits.length, List.take_left]
  · simp [digits.length]
  · simp [digits.length] at short ⊢
    omega

theorem hexPart_cut {t : Text} (further : ¬ BeginsHex 2 t) : hexPart t = .unknown 'x' := by
  have short : ¬ 2 ≤ ((t.take 4).takeWhile Text.isHexDigit).length :=
    mt (beginsHex_iff (k := 2)).mpr further
  rw [hexPart, if_neg (by omega), if_neg short]

/-- A part that may stand in front of a rest is the part that is read there. -/
theorem Front.read {p : Part} {rest : Text} {bs : Bytes} (h : Front p rest bs) :
    ∃ c w, p.written = c :: w ∧ firstPart c (w ++ rest) = p ∧ p.bytes = bs := by
  cases h with
  | @plain c _ other => exact ⟨c, [], rfl, if_neg other, rfl⟩
  | @named c b _ name =>
      refine ⟨'\\', [c], rfl, ?_, rfl⟩
      rw [firstPart, if_pos rfl, List.singleton_append, escapePart, named?_eq_some_of_mem name]
  | @octal ds _ b some run value =>
      refine ⟨'\\', ds, rfl, ?_, ?_⟩
      · obtain ⟨d, ds, rfl⟩ := List.exists_cons_of_ne_nil some
        have digit : isOctalDigit d := List.all_eq_true.mp run.digits d List.mem_cons_self
        have read := run.takeWhile_take
        rw [List.cons_append] at read
        rw [firstPart, if_pos rfl, List.cons_append, escapePart,
          named?_eq_none (notMem_names_of_octal digit)]
        simp only [if_pos digit, read]
      · rw [Part.bytes, List.singleton_inj, ← UInt8.toNat_inj, value, UInt8.toNat_ofNat']
  | @codePoint ds _ c digits value =>
      refine ⟨'\\', 'x' :: ds, rfl, hexPart_codePoint digits _, ?_⟩
      have valid : c.toNat.isValidChar := c.valid
      rw [Part.bytes, ← value, if_pos valid, Char.ofNat_toNat]
  | @surrogate ds _ digits range =>
      refine ⟨'\\', 'x' :: ds, rfl, hexPart_codePoint digits _, ?_⟩
      have invalid : ¬ (Text.ofHex ds).isValidChar := by
        unfold Nat.isValidChar
        omega
      rw [Part.bytes, if_neg invalid, Part.written]
  | @byte ds _ b digits further value =>
      refine ⟨'\\', 'x' :: ds, rfl, hexPart_byte digits further, ?_⟩
      rw [Part.bytes, ← value, UInt8.ofNat_toNat]
  | cut further => exact ⟨'\\', ['x'], rfl, hexPart_cut further, rfl⟩
  | @unknown c _ name digit x =>
      refine ⟨'\\', [c], rfl, ?_, rfl⟩
      rw [firstPart, if_pos rfl, List.singleton_append, escapePart, named?_eq_none name]
      simp only [digit, if_neg x]
      rfl
  | lone => exact ⟨'\\', [], rfl, rfl, rfl⟩

/-- A division is that into the parts that are read. -/
theorem Divides.read {line : Text} {ps : List Part} {bs : Bytes} (h : Divides line ps bs) :
    parts line = ps ∧ bytes line = bs := by
  induction h with
  | nil => exact ⟨rfl, rfl⟩
  | cons front _ ih =>
      obtain ⟨c, w, written, first, stands⟩ := front.read
      rw [written, parts_of_firstPart first written, bytes_of_firstPart first written, ih.1, ih.2,
        stands]
      exact ⟨rfl, rfl⟩

theorem writes_self {line : Text} (h : '\\' ∉ line) : Writes line line := by
  induction line with
  | nil => exact .nil
  | cons c t ih =>
      rw [List.mem_cons, not_or] at h
      exact (writes_plain (Ne.symm h.1)).append (ih h.2)

/-! ### Main statement -/

/-- **A line has one division into parts, and stands for the text of its bytes.**  Without a
backslash it stands for itself. -/
theorem unescape_division (line : Text) :
    (∃ ps bs, (∀ qs cs, Divides line qs cs ↔ qs = ps ∧ cs = bs) ∧
      unescape line = Utf8.decode bs) ∧
    ('\\' ∉ line → unescape line = line) := by
  obtain ⟨ps, bs, divides⟩ := exists_divides line
  refine ⟨⟨ps, bs, fun qs cs => ⟨fun h => ?_, ?_⟩, ?_⟩, fun h => (writes_self h).unescape⟩
  · obtain ⟨rfl, rfl⟩ := h.read
    obtain ⟨rfl, rfl⟩ := divides.read
    exact ⟨rfl, rfl⟩
  · rintro ⟨rfl, rfl⟩
    exact divides
  · rw [unescape, ← bytes, divides.read.2]

/-- The bytes of two parts may be one character. -/
example : unescape "\\xC3\\2511" = "é1" := by decide

end EventLog.Backslash
