import EventLog.Proofs.Text.Utf8
import Mathlib.Algebra.Group.Nat.Defs

/-!
# Reading bytes that are no text

Whatever a character under way turns out to be, it is one beyond ASCII, and a byte of ASCII does not
belong to it (`Pending.Sound`).  So every byte of ASCII is read as its character, and breaks the
bytes into parts that are read on their own (`decode_append_ascii`).  A character of ASCII comes
from no other byte (`mem_decode`), and is the last one only if its byte is the last
(`getLast?_decode`).
-/

namespace EventLog.Utf8

/-! ### Characters under way -/

/-- The least number that a character under way may turn out to have. -/
def Pending.least (p : Pending) : Nat := (p.bits * 64 + (p.low.toNat - 0x80)) * 64 ^ p.more

/-- The number that all it may turn out to have are below. -/
def Pending.limit (p : Pending) : Nat := (p.bits * 64 + (p.high.toNat - 0x80) + 1) * 64 ^ p.more

/-- A character under way is one beyond ASCII, whatever it turns out to be, and goes on with a byte
beyond ASCII. -/
structure Pending.Sound (p : Pending) : Prop where
  low : 0x80 ≤ p.low
  least : 0x80 ≤ p.least
  valid : p.limit ≤ 0xD800 ∨ 0xE000 ≤ p.least ∧ p.limit ≤ 0x110000

/-- A byte settles a character or leaves one under way.  If a character of ASCII is settled, the
byte is this character. -/
structure Settles (b : UInt8) (out : Text × Option Pending) : Prop where
  sound : ∀ p ∈ out.2, p.Sound
  ascii : ∀ c ∈ out.1, c.toNat < 0x80 → UInt8.ofNat c.toNat = b
  nonempty : out.1 ≠ [] ∨ out.2.isSome

theorem Settles.char {b : UInt8} {c : Char} (h : c.toNat < 0x80 → UInt8.ofNat c.toNat = b) :
    Settles b ([c], none) :=
  ⟨nofun, fun _ hc => List.mem_singleton.mp hc ▸ h, .inl nofun⟩

theorem Settles.replacement (b : UInt8) : Settles b ([replacement], none) :=
  .char fun h => absurd h (by decide)

theorem Settles.pending {b : UInt8} {p : Pending} (h : p.Sound) : Settles b ([], some p) :=
  ⟨fun _ hp => Option.some.inj hp ▸ h, nofun, .inr rfl⟩

theorem begin_settles (b : UInt8) : Settles b (begin b) := by
  fun_cases begin b with
  | case1 =>
      have valid : b.toNat.isValidChar := .inl (Nat.lt_trans b.toNat_lt (by decide))
      exact .char fun _ => by rw [toNat_ofNat valid, UInt8.ofNat_toNat]
  | case2 | case10 => exact .replacement b
  | case4 | case5 | case7 | case9 => exact .pending ⟨by decide, by decide, by decide⟩
  | case3 _ above below =>
      have above : 0xC2 ≤ b.toNat := UInt8.not_lt.mp above
      have below : b.toNat < 0xE0 := below
      refine .pending ⟨UInt8.le_refl _, ?_, .inl ?_⟩
      all_goals
        simp only [Pending.least, Pending.limit, UInt8.reduceToNat]
        omega
  | case6 _ _ above first surrogate below =>
      have above : 0xE0 ≤ b.toNat := UInt8.not_lt.mp above
      have below : b.toNat < 0xF0 := below
      have first : b.toNat ≠ 0xE0 := fun h => first (UInt8.toNat_inj.mp h)
      have surrogate : b.toNat ≠ 0xED := fun h => surrogate (UInt8.toNat_inj.mp h)
      refine .pending ⟨UInt8.le_refl _, ?_, ?_⟩
      all_goals
        simp only [Pending.least, Pending.limit, UInt8.reduceToNat]
        omega
  | case8 _ _ _ _ _ above first below =>
      have above : 0xF0 ≤ b.toNat := UInt8.not_lt.mp above
      have below : b.toNat < 0xF4 := below
      have first : b.toNat ≠ 0xF0 := fun h => first (UInt8.toNat_inj.mp h)
      refine .pending ⟨UInt8.le_refl _, ?_, .inr ⟨?_, ?_⟩⟩
      all_goals
        simp only [Pending.least, Pending.limit, UInt8.reduceToNat]
        omega

theorem begin_ascii {b : UInt8} (hb : b < 0x80) : begin b = ([Char.ofNat b.toNat], none) :=
  if_pos hb

section

variable {p : Pending} {b : UInt8} (hp : p.Sound) (hb : p.low ≤ b ∧ b ≤ p.high)

include hb

/-- A byte in range leaves no more to be settled than before. -/
theorem Pending.within : p.least ≤ (p.bits * 64 + (b.toNat - 0x80)) * 64 ^ p.more ∧
    (p.bits * 64 + (b.toNat - 0x80) + 1) * 64 ^ p.more ≤ p.limit := by
  have hlow : p.low.toNat ≤ b.toNat := hb.1
  have hhigh : b.toNat ≤ p.high.toNat := hb.2
  constructor <;> refine Nat.mul_le_mul_right _ ?_ <;> omega

include hp

theorem Pending.Sound.done (hmore : p.more = 0) :
    let n := p.bits * 64 + (b.toNat - 0x80)
    0x80 ≤ (Char.ofNat n).toNat := by
  intro n
  obtain ⟨above, below⟩ := within hb
  rw [hmore, Nat.pow_zero, Nat.mul_one] at above below
  have least := hp.least
  have valid : n.isValidChar := by
    have := hp.valid
    unfold Nat.isValidChar
    omega
  rw [toNat_ofNat valid]
  omega

theorem Pending.Sound.further {k : Nat} (hmore : p.more = k + 1) :
    Pending.Sound ⟨p.bits * 64 + (b.toNat - 0x80), k, 0x80, 0xBF⟩ := by
  obtain ⟨above, below⟩ := within hb
  rw [hmore, Nat.pow_succ', ← Nat.mul_assoc] at above below
  generalize p.bits * 64 + (b.toNat - 0x80) = n at above below ⊢
  have lowest : (0x80 : UInt8).toNat - 0x80 = 0 := by decide
  have highest : (0xBF : UInt8).toNat - 0x80 + 1 = 64 := by decide
  have least : p.least ≤ Pending.least ⟨n, k, 0x80, 0xBF⟩ := by
    change _ ≤ (n * 64 + ((0x80 : UInt8).toNat - 0x80)) * 64 ^ k
    rw [lowest, Nat.add_zero]
    exact above
  have limit : Pending.limit ⟨n, k, 0x80, 0xBF⟩ ≤ p.limit := by
    rw [Pending.limit, Nat.add_assoc, highest, ← Nat.succ_mul]
    exact below
  refine ⟨UInt8.le_refl _, Nat.le_trans hp.least least, ?_⟩
  have := hp.valid
  omega

end

/-! ### One byte -/

/-- A state in which no character under way can go wrong. -/
abbrev Sound (s : Option Pending) : Prop := ∀ p ∈ s, p.Sound

theorem step_settles {s : Option Pending} (hs : Sound s) (b : UInt8) : Settles b (step s b) := by
  cases s with
  | none => exact begin_settles b
  | some p =>
      have hp := hs p rfl
      by_cases hb : p.low ≤ b ∧ b ≤ p.high
      · rw [step, if_pos hb]
        cases hmore : p.more with
        | zero => exact .char fun ha => absurd ha (Nat.not_lt.mpr (hp.done hb hmore))
        | succ k => exact .pending (hp.further hb hmore)
      · have begun := begin_settles b
        rw [step, if_neg hb]
        refine ⟨begun.sound, fun c hc ha => ?_, .inl (List.cons_ne_nil _ _)⟩
        rcases List.mem_cons.mp hc with rfl | hc
        · exact absurd ha (by decide)
        · exact begun.ascii c hc ha

/-- A byte of ASCII breaks off a character under way, and is one itself. -/
theorem step_ascii {s : Option Pending} (hs : Sound s) {b : UInt8} (hb : b < 0x80) :
    step s b = (decodeFrom s [] ++ [Char.ofNat b.toNat], none) := by
  cases s with
  | none => exact begin_ascii hb
  | some p =>
      have outside : ¬ (p.low ≤ b ∧ b ≤ p.high) := fun h =>
        absurd (UInt8.lt_of_lt_of_le hb (hs p rfl).low) (UInt8.not_lt.mpr h.1)
      rw [step, if_neg outside, begin_ascii hb]
      rfl

theorem sound_none : Sound none := nofun

theorem decodeFrom_append_ascii {s : Option Pending} (hs : Sound s) (bs : Bytes) {b : UInt8}
    (hb : b < 0x80) (bs' : Bytes) :
    decodeFrom s (bs ++ b :: bs') =
      decodeFrom s bs ++ Char.ofNat b.toNat :: decodeFrom none bs' := by
  induction bs generalizing s with
  | nil =>
      have first : decodeFrom s (b :: bs') = (step s b).1 ++ decodeFrom (step s b).2 bs' := rfl
      rw [List.nil_append, first, step_ascii hs hb, List.append_assoc, List.singleton_append]
  | cons a bs ih =>
      rw [List.cons_append, decodeFrom, ih (step_settles hs a).sound, decodeFrom, List.append_assoc]

/-- **A byte of ASCII is read as its character wherever it stands**, and what is before and behind
it is read on its own. -/
theorem decode_append_ascii (bs : Bytes) {b : UInt8} (hb : b < 0x80) (bs' : Bytes) :
    decode (bs ++ b :: bs') = decode bs ++ Char.ofNat b.toNat :: decode bs' :=
  decodeFrom_append_ascii sound_none bs hb bs'

/-- A character of ASCII is read only where its byte stands. -/
theorem mem_decodeFrom {s : Option Pending} (hs : Sound s) {bs : Bytes} {a : Char}
    (ha : a.toNat < 0x80) (h : a ∈ decodeFrom s bs) : UInt8.ofNat a.toNat ∈ bs := by
  induction bs generalizing s with
  | nil =>
      have other : a ≠ replacement := fun h => absurd (h ▸ ha) (by decide)
      rw [decodeFrom] at h
      split at h
      · exact absurd (List.mem_singleton.mp h) other
      · cases h
  | cons b bs ih =>
      have settles := step_settles hs b
      rcases List.mem_append.mp h with h | h
      · exact settles.ascii a h ha ▸ List.mem_cons_self
      · exact List.mem_cons_of_mem b (ih settles.sound h)

theorem mem_decode {bs : Bytes} {a : Char} (ha : a.toNat < 0x80) (h : a ∈ decode bs) :
    UInt8.ofNat a.toNat ∈ bs :=
  mem_decodeFrom sound_none ha h

/-- The last character that is read is of ASCII only if it is the last byte. -/
theorem getLast?_decodeFrom {s : Option Pending} (hs : Sound s) (bs : Bytes) (b : UInt8) :
    ∃ c, (decodeFrom s (bs ++ [b])).getLast? = some c ∧
      (c.toNat < 0x80 → UInt8.ofNat c.toNat = b) := by
  induction bs generalizing s with
  | nil =>
      have settles := step_settles hs b
      rw [List.nil_append, decodeFrom, decodeFrom]
      by_cases pending : (step s b).2.isSome
      · rw [if_pos pending, List.getLast?_concat]
        exact ⟨replacement, rfl, fun h => absurd h (by decide)⟩
      · have nonempty := settles.nonempty.resolve_right pending
        rw [if_neg pending, List.append_nil, List.getLast?_eq_some_getLast nonempty]
        exact ⟨_, rfl, settles.ascii _ (List.getLast_mem nonempty)⟩
  | cons a bs ih =>
      obtain ⟨c, last, ascii⟩ := ih (step_settles hs a).sound
      refine ⟨c, ?_, ascii⟩
      rw [List.cons_append, decodeFrom, List.getLast?_append, last, Option.some_or]

theorem getLast?_decode {bs : Bytes} {a : Char} (ha : a.toNat < 0x80)
    (h : (decode bs).getLast? = some a) : bs.getLast? = some (UInt8.ofNat a.toNat) := by
  rcases bs.eq_nil_or_concat with rfl | ⟨bs, b, rfl⟩
  · cases h
  · rw [List.concat_eq_append] at h ⊢
    obtain ⟨c, last, ascii⟩ := getLast?_decodeFrom sound_none bs b
    obtain rfl : a = c := Option.some.inj (h.symm.trans last)
    rw [List.getLast?_concat, ascii ha]

theorem decode_eq_nil_iff {bs : Bytes} : decode bs = [] ↔ bs = [] := by
  refine ⟨fun h => ?_, fun h => h ▸ rfl⟩
  rcases bs.eq_nil_or_concat with rfl | ⟨bs, b, rfl⟩
  · rfl
  · rw [List.concat_eq_append] at h
    obtain ⟨c, last, -⟩ := getLast?_decodeFrom sound_none bs b
    rw [← decode, h] at last
    cases last

end EventLog.Utf8
