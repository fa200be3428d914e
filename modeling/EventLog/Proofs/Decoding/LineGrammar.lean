import EventLog.Proofs.Decoding.Scan

/-!
# The grammar of the internal format

The internal format is read line by line, by a machine that carries the event and the field under
way along.  Here it is described without the machine.  A list of lines is cut where an event
begins, and what stands between two cuts is cut where a field begins (`sections`); the lines of
values up to the next cut are the values of the field.  Whether a line is bad depends on the lines
before it, by what stands behind the last cut (`since`).

* `run_internal`: into a sink that never fails, the machine delivers the events of the grammar if no
  line is bad, and otherwise stops at the first bad line with those that are complete by then.

The machine is compared with the grammar twice: `resume` is what the lines to come make of what is
under way, and `Stands` what the lines before have made of it.
-/

namespace EventLog.Internal

/-! ### Lines -/

/-- The character that a kind of line begins with. -/
def LineKind.letter : LineKind → Char
  | comment => '#'
  | event   => 'e'
  | field   => 'f'
  | value   => 'v'

/-- Whether the letter of a kind and a colon begin a line. -/
def LineKind.heads (kind : LineKind) (line : Text) : Bool := line.take 2 == [kind.letter, ':']

/-- What stands behind the colon. -/
def payload (line : Text) : Text := line.drop 2

/-- Byte by byte, a line is too short, or its first is not one of `#`, `e`, `f` and `v`, or its
second is not a colon. -/
def Malformed (line : Text) : Prop :=
  (Utf8.encode line).length < 2 ∨
    (∀ b ∈ (Utf8.encode line).head?, b ∉ [0x23, 0x65, 0x66, 0x76]) ∨
    (Utf8.encode line)[1]? ≠ some 0x3A

instance (line : Text) : Decidable (Malformed line) := inferInstanceAs (Decidable (_ ∨ _ ∨ _))

@[simp] theorem heads_letter (kind kind' : LineKind) (v : Text) :
    kind'.heads (kind.letter :: ':' :: v) = decide (kind' = kind) := by
  cases kind <;> cases kind' <;> rfl

@[simp] theorem payload_letter (kind : LineKind) (v : Text) :
    payload (kind.letter :: ':' :: v) = v := rfl

@[simp] theorem split_letter (kind : LineKind) (v : Text) :
    split (kind.letter :: ':' :: v) = .ok (kind, v) := by
  have hs : ¬ 1 + (1 + v.size) < 2 := by omega
  cases kind <;> simp [split, LineKind.letter, LineKind.ofChar?, Char.utf8Size, hs]

theorem not_malformed_letter (kind : LineKind) (v : Text) :
    ¬ Malformed (kind.letter :: ':' :: v) := by
  cases kind <;> simp [Malformed, LineKind.letter, String.utf8EncodeChar]

/-- A line that is not malformed has a kind. -/
theorem eq_letter_of_not_malformed {line : Text} (h : ¬ Malformed line) :
    ∃ (kind : LineKind) (v : Text), line = kind.letter :: ':' :: v := by
  simp only [Malformed, not_or, Classical.not_forall, Classical.not_not] at h
  obtain ⟨-, ⟨b, hb, hk⟩, hc⟩ := h
  simp only [List.mem_cons, List.not_mem_nil, or_false] at hk
  have small : b.toNat < 0x80 := by rcases hk with rfl | rfl | rfl | rfl <;> decide
  obtain ⟨t, rfl, ht⟩ := Utf8.eq_cons_of_head? hb small
  rw [ht, List.getElem?_cons_succ, ← List.head?_eq_getElem?] at hc
  obtain ⟨v, rfl, -⟩ := Utf8.eq_cons_of_head? hc (by decide)
  rcases hk with rfl | rfl | rfl | rfl
  · exact ⟨.comment, v, rfl⟩
  · exact ⟨.event, v, rfl⟩
  · exact ⟨.field, v, rfl⟩
  · exact ⟨.value, v, rfl⟩

theorem eq_letter_of_heads {kind : LineKind} {line : Text} (h : kind.heads line) :
    ∃ v, line = kind.letter :: ':' :: v := by
  refine ⟨line.drop 2, ?_⟩
  rw [← List.take_append_drop 2 line, eq_of_beq h]
  rfl

theorem eq_letter_of_ofChar? {c : Char} {kind : LineKind} (h : LineKind.ofChar? c = some kind) :
    c = kind.letter := by
  revert h
  fun_cases LineKind.ofChar? c with
  | case1 | case2 | case3 | case4 => rintro ⟨⟩; rfl
  | case5 _ _ _ _ => rintro ⟨⟩

/-- A line that is malformed is not read. -/
theorem split_of_malformed {line : Text} (h : Malformed line) :
    ∃ fault, split line = .error fault ∧ fault.code = -4 := by
  fun_cases split line with
  | case1 _ | case2 _ | case3 _ _ _ _ | case5 _ _ _ _ _ _ => exact ⟨_, rfl, rfl⟩
  | case4 c kind v hkind _ =>
      obtain rfl := eq_letter_of_ofChar? hkind
      exact absurd h (not_malformed_letter kind v)

/-! ### Grouping -/

variable {α : Type}

/-- The elements with a property, each with what follows it up to the next of them. -/
def sections (p : α → Bool) : List α → List (α × List α)
  | []      => []
  | x :: xs => if p x then (x, xs.takeWhile (!p ·)) :: sections p xs else sections p xs

/-- What follows the last element with a property; everything if there is none. -/
def since (p : α → Bool) (xs : List α) : List α := (xs.reverse.takeWhile (!p ·)).reverse

theorem sections_cons (p : α → Bool) (x : α) (xs : List α) :
    sections p (x :: xs) =
      if p x then (x, xs.takeWhile (!p ·)) :: sections p xs else sections p xs := rfl

theorem length_sections (p : α → Bool) (xs : List α) :
    (sections p xs).length = xs.countP p := by
  induction xs with
  | nil => rfl
  | cons x xs ih =>
      rw [sections_cons, List.countP_cons]
      split <;> simp [ih]

theorem since_concat (p : α → Bool) (xs : List α) (x : α) :
    since p (xs ++ [x]) = if p x then [] else since p xs ++ [x] := by
  cases hx : p x <;> simp [since, hx]

/-- The texts of the lines of values. -/
def valuesOf (lines : List Text) : List Value :=
  (lines.filter LineKind.value.heads).map fun line => .string (payload line)

/-- The fields that lines begin, with their values. -/
def fieldsOf (lines : List Text) : List Field :=
  (sections LineKind.field.heads lines).map fun (line, body) =>
    ⟨some (payload line), valuesOf body⟩

/-- The events that lines begin, with their fields. -/
def eventsOf (lines : List Text) : List Event :=
  (sections LineKind.event.heads lines).map fun (_, body) => ⟨none, fieldsOf body⟩

/-- A line begins an event. -/
def Begun (lines : List Text) : Prop := ∃ l ∈ lines, LineKind.event.heads l

/-- A line begins a field of the last event. -/
def HasField (lines : List Text) : Prop :=
  ∃ l ∈ since LineKind.event.heads lines, LineKind.field.heads l

/-- The number of values behind the last line that begins a field or an event. -/
def valueCount (lines : List Text) : Nat :=
  (since (fun l => LineKind.event.heads l || LineKind.field.heads l) lines).countP
    LineKind.value.heads

/-- A line of a value is one too many for its field. -/
def Overfull (before : List Text) (line : Text) : Prop :=
  LineKind.value.heads line ∧ HasField before ∧ valueCount before = 255

/-- A line is bad behind the lines before it. -/
def Bad (before : List Text) (line : Text) : Prop :=
  Malformed line ∨ (LineKind.field.heads line ∧ ¬ Begun before) ∨
    (LineKind.value.heads line ∧ ¬ HasField before) ∨ Overfull before line

instance (lines : List Text) : Decidable (Begun lines) :=
  inferInstanceAs (Decidable (∃ l ∈ lines, LineKind.event.heads l))

instance (lines : List Text) : Decidable (HasField lines) :=
  inferInstanceAs (Decidable (∃ l ∈ since LineKind.event.heads lines, LineKind.field.heads l))

instance (before : List Text) (line : Text) : Decidable (Overfull before line) :=
  inferInstanceAs (Decidable (_ ∧ _ ∧ _))

instance (before : List Text) (line : Text) : Decidable (Bad before line) :=
  inferInstanceAs (Decidable (_ ∨ _ ∨ _ ∨ _))

/-- No line is bad. -/
def Good (lines : List Text) : Prop :=
  ∀ (k : Nat) (hk : k < lines.length), ¬ Bad (lines.take k) lines[k]

instance (lines : List Text) : Decidable (Good lines) :=
  Nat.decidableBallLT lines.length fun k _ => ¬ Bad (lines.take k) lines[k]

/-! ### Bad lines are refused -/

section

variable {kind : LineKind} {v : Text} {lines : List Text}

theorem begun_concat :
    Begun (lines ++ [kind.letter :: ':' :: v]) ↔ kind = .event ∨ Begun lines := by
  rw [Begun]
  cases kind <;> simp [Begun, or_and_right, exists_or]

theorem hasField_concat :
    HasField (lines ++ [kind.letter :: ':' :: v]) ↔
      kind = .field ∨ kind ≠ .event ∧ HasField lines := by
  rw [HasField, since_concat]
  cases kind <;> simp [HasField, or_and_right, exists_or, or_comm]

theorem valueCount_concat :
    valueCount (lines ++ [kind.letter :: ':' :: v]) =
      match kind with
      | .comment        => valueCount lines
      | .event | .field => 0
      | .value          => valueCount lines + 1 := by
  rw [valueCount, since_concat]
  cases kind <;> simp [valueCount]

end

/-- What the lines before a point have made of an event. -/
def Stands (before : List Text) : Open → Prop
  | .nothing   => ¬ Begun before ∧ ¬ HasField before
  | .event _   => Begun before ∧ ¬ HasField before
  | .field _ f =>
    Begun before ∧ HasField before ∧ f.values.length = valueCount before ∧ f.values.length ≤ 255

@[simp] theorem step_letter (o : Open) (kind : LineKind) (v : Text) :
    Decoder.internal.step o (kind.letter :: ':' :: v) = step o kind v := by
  rw [Decoder.step, split_letter]
  rfl

/-- A bad line is refused, whatever makes it bad. -/
theorem step_of_bad {before : List Text} {o : Open} {line : Text} (hs : Stands before o)
    (hb : Bad before line) :
    ∃ fault, Decoder.internal.step o line = .error fault ∧
      fault.code = if Overfull before line then -6 else -4 := by
  rcases hb with hm | ⟨hl, hn⟩ | ⟨hl, hn⟩ | hover
  · obtain ⟨fault, hf, hcode⟩ := split_of_malformed hm
    -- What is malformed is no line of a value.
    have : ¬ Overfull before line := fun ho => by
      obtain ⟨v, rfl⟩ := eq_letter_of_heads ho.1
      exact not_malformed_letter _ v hm
    exact ⟨fault, by rw [Decoder.step, hf]; rfl, by rw [hcode, if_neg this]⟩
  · obtain ⟨v, rfl⟩ := eq_letter_of_heads hl
    have : ¬ Overfull before (LineKind.field.letter :: ':' :: v) := fun ho => by
      simpa using ho.1
    rw [if_neg this]
    cases o with
    | nothing => exact ⟨_, step_letter _ _ v, rfl⟩
    | event _ | field _ _ => exact absurd hs.1 hn
  · obtain ⟨v, rfl⟩ := eq_letter_of_heads hl
    rw [if_neg fun ho => hn ho.2.1]
    cases o with
    | nothing | event _ => exact ⟨_, step_letter _ _ v, rfl⟩
    | field _ _ => exact absurd hs.2.1 hn
  · rw [if_pos hover]
    obtain ⟨hl, hf, hcount⟩ := hover
    obtain ⟨v, rfl⟩ := eq_letter_of_heads hl
    cases o with
    | nothing | event _ => exact absurd hf hs.2
    | field e f =>
        have full : f.values.length = 255 := hs.2.2.1.trans hcount
        refine ⟨.tooManyValues f.label Field.maxValues, ?_, rfl⟩
        simp [step, Field.add, Field.maxValues, full, Except.map, Field.label]

/-- A line that is not bad is read. -/
theorem step_of_not_bad {before : List Text} {o : Open} {line : Text} (hs : Stands before o)
    (hb : ¬ Bad before line) :
    ∃ e o', Decoder.internal.step o line = .ok (e, o') ∧ Stands (before ++ [line]) o' := by
  simp only [Bad, not_or] at hb
  obtain ⟨hm, hf, hv, hover⟩ := hb
  obtain ⟨kind, v, rfl⟩ := eq_letter_of_not_malformed hm
  rw [step_letter]
  cases kind with
  | comment =>
      refine ⟨none, o, rfl, ?_⟩
      cases o <;> simpa [Stands, begun_concat, hasField_concat, valueCount_concat] using hs
  | event =>
      refine ⟨o.event?, .event .empty, rfl, ?_⟩
      simp [Stands, begun_concat, hasField_concat]
  | field =>
      have begun : Begun before := by simpa using hf
      cases o with
      | nothing => exact absurd begun hs.1
      | event e =>
          refine ⟨none, .field e (.named v), rfl, ?_⟩
          simp [Stands, begun_concat, hasField_concat, valueCount_concat, Field.named, begun]
      | field e f =>
          refine ⟨none, .field (e.addField f) (.named v), rfl, ?_⟩
          simp [Stands, begun_concat, hasField_concat, valueCount_concat, Field.named, begun]
  | value =>
      have hasField : HasField before := by simpa using hv
      cases o with
      | nothing | event _ => exact absurd hasField hs.2
      | field e f =>
          obtain ⟨begun, -, hcount, hle⟩ := hs
          have room : f.values.length < 255 := by
            have : f.values.length ≠ 255 := fun hfull =>
              hover ⟨by simp, hasField, hcount ▸ hfull⟩
            omega
          have added : f.add (.string v) = .ok { f with values := f.values ++ [.string v] } :=
            Field.add_eq_ok_iff.mpr ⟨room, rfl⟩
          refine ⟨none, .field e { f with values := f.values ++ [.string v] }, ?_, ?_⟩
          · rw [step, added]
            rfl
          · refine ⟨?_, ?_, ?_, ?_⟩
            · exact begun_concat.mpr (.inr begun)
            · exact hasField_concat.mpr (.inr ⟨by simp, hasField⟩)
            · simp [valueCount_concat, hcount]
            · exact Field.length_le_of_add added

/-- Behind lines of which none is bad, something is under way. -/
theorem openedFrom_of_good :
    ∀ {lines before : List Text} {o : Open}, Stands before o →
      (∀ (k : Nat) (hk : k < lines.length), ¬ Bad (before ++ lines.take k) lines[k]) →
      ∃ o', Decoder.internal.openedFrom o lines = .ok o' ∧ Stands (before ++ lines) o'
  | [], before, o, hs, _ => ⟨o, rfl, by simpa using hs⟩
  | line :: lines, before, o, hs, hg => by
      have first : ¬ Bad before line := by simpa using hg 0 (Nat.succ_pos _)
      have others : ∀ (k : Nat) (hk : k < lines.length),
          ¬ Bad (before ++ [line] ++ lines.take k) lines[k] := fun k hk => by
        have := hg (k + 1) (Nat.succ_lt_succ hk)
        rw [List.take_succ_cons, List.getElem_cons_succ] at this
        simpa using this
      obtain ⟨e, o', hstep, hs'⟩ := step_of_not_bad hs first
      obtain ⟨o'', hopen, hs''⟩ := openedFrom_of_good hs' others
      exact ⟨o'', by rw [Decoder.openedFrom_cons, hstep, ← hopen], by simpa using hs''⟩

theorem opened_of_good {lines : List Text} (hg : Good lines) :
    ∃ o, Decoder.internal.opened lines = .ok o ∧ Stands lines o :=
  have atStart : Stands [] .nothing := by simp [Stands, Begun, HasField, since]
  openedFrom_of_good atStart hg

/-! ### What the lines to come make of an event -/

/-- The events that come of what is under way and the lines behind it. -/
def resume : Open → List Text → List Event
  | .nothing, lines   => eventsOf lines
  | .event e, lines   =>
    { e with fields := e.fields ++ fieldsOf (lines.takeWhile (!LineKind.event.heads ·)) } ::
      eventsOf lines
  | .field e f, lines =>
    let body := lines.takeWhile (!LineKind.event.heads ·)
    let values := valuesOf (body.takeWhile (!LineKind.field.heads ·))
    { e with fields := e.fields ++ { f with values := f.values ++ values } :: fieldsOf body } ::
      eventsOf lines

@[simp] theorem valuesOf_nil : valuesOf [] = [] := rfl

@[simp] theorem fieldsOf_nil : fieldsOf [] = [] := rfl

@[simp] theorem eventsOf_nil : eventsOf [] = [] := rfl

@[simp] theorem valuesOf_letter (kind : LineKind) (v : Text) (lines : List Text) :
    valuesOf ((kind.letter :: ':' :: v) :: lines) =
      if kind = .value then .string v :: valuesOf lines else valuesOf lines := by
  cases kind <;> simp [valuesOf]

@[simp] theorem fieldsOf_letter (kind : LineKind) (v : Text) (lines : List Text) :
    fieldsOf ((kind.letter :: ':' :: v) :: lines) =
      if kind = .field then
        ⟨some v, valuesOf (lines.takeWhile (!LineKind.field.heads ·))⟩ :: fieldsOf lines
      else fieldsOf lines := by
  cases kind <;> simp [fieldsOf, sections_cons]

@[simp] theorem eventsOf_letter (kind : LineKind) (v : Text) (lines : List Text) :
    eventsOf ((kind.letter :: ':' :: v) :: lines) =
      if kind = .event then
        ⟨none, fieldsOf (lines.takeWhile (!LineKind.event.heads ·))⟩ :: eventsOf lines
      else eventsOf lines := by
  cases kind <;> simp [eventsOf, sections_cons]

theorem resume_nil (o : Open) : resume o [] = o.event?.toList := by
  cases o <;> simp [resume, Open.event?, Event.addField]

/-- A line that is read settles the event that it completes, and no more. -/
theorem resume_step {o o' : Open} {kind : LineKind} {v : Text} {e' : Option Event}
    (h : step o kind v = .ok (e', o')) (lines : List Text) :
    resume o ((kind.letter :: ':' :: v) :: lines) = e'.toList ++ resume o' lines := by
  cases kind with
  | comment =>
      cases h
      cases o <;> simp [resume]
  | event =>
      cases h
      cases o <;> simp [resume, Open.event?, Event.addField, Event.empty]
  | field =>
      cases o with
      | nothing => cases h
      | event e | field e f => cases h; simp [resume, Event.addField, Field.named]
  | value =>
      cases o with
      | nothing | event e => cases h
      | field e f =>
          rw [step] at h
          cases hadd : f.add (.string v) with
          | error c => simp [hadd, Except.map] at h
          | ok f' =>
              obtain ⟨-, rfl⟩ := Field.add_eq_ok_iff.mp hadd
              obtain ⟨rfl, rfl⟩ : none = e' ∧ Open.field e _ = o' := by
                simpa [hadd, Except.map] using h
              simp [resume]

/-- Events that are complete and the one under way are those of the grammar. -/
theorem completedFrom_append :
    ∀ {lines : List Text} {o o' : Open}, Decoder.internal.openedFrom o lines = .ok o' →
      Decoder.internal.completedFrom o lines ++ o'.event?.toList = resume o lines
  | [], o, o', h => by
      cases h
      rw [resume_nil]
      rfl
  | line :: lines, o, o', h => by
      rw [Decoder.openedFrom_cons] at h
      by_cases hm : Malformed line
      · obtain ⟨fault, hf, -⟩ := split_of_malformed hm
        simp [Decoder.step, hf, bind, Except.bind] at h
      · obtain ⟨kind, v, rfl⟩ := eq_letter_of_not_malformed hm
        rw [step_letter] at h
        cases hr : step o kind v with
        | error c => simp [hr] at h
        | ok r =>
            obtain ⟨e, o''⟩ := r
            simp only [hr] at h
            rw [resume_step hr, ← completedFrom_append h, Decoder.completedFrom]
            simp only [step_letter, hr, List.append_assoc]

theorem completed_append {lines : List Text} {o : Open}
    (h : Decoder.internal.opened lines = .ok o) :
    Decoder.internal.completed lines ++ o.event?.toList = eventsOf lines :=
  completedFrom_append h

theorem length_eventsOf (lines : List Text) :
    (eventsOf lines).length = lines.countP LineKind.event.heads := by
  rw [eventsOf, List.length_map, length_sections]

/-- All events but the last are complete. -/
theorem completed_eq_dropLast {lines : List Text} {o : Open}
    (h : Decoder.internal.opened lines = .ok o) (hs : Stands lines o) :
    Decoder.internal.completed lines = (eventsOf lines).dropLast := by
  have happ := completed_append h
  cases o with
  | nothing =>
      -- Nothing is under way only in front of the first event.
      have none : eventsOf lines = [] := by
        rw [← List.length_eq_zero_iff, length_eventsOf, List.countP_eq_zero]
        exact fun l hl he => hs.1 ⟨l, hl, he⟩
      rw [none] at happ ⊢
      exact (List.append_eq_nil_iff.mp happ).1
  | event e | field e f =>
      rw [← happ]
      exact List.dropLast_concat.symm

/-! ### Main statement -/

/-- The outcome of a run over some lines is as the grammar says. -/
structure Conforms {σ : Type} (sink : Sink σ) (s : σ) (lines : List Text) (out : Outcome σ) :
    Prop where
  /-- If no line is bad, there is an event for each line that begins one, and all are delivered. -/
  good : Good lines →
    out.result = .ok (lines.countP LineKind.event.heads) ∧ out.state = sink.feed s (eventsOf lines)
  /-- The first bad line is the error, and the events that end before it are delivered. -/
  bad : ∀ (k : Nat) (hk : k < lines.length), Good (lines.take k) → Bad (lines.take k) lines[k] →
    (∃ fault, out.result = .error (.decode "int" (k + 1) fault) ∧
      fault.code = if Overfull (lines.take k) lines[k] then -6 else -4) ∧
    out.state = sink.feed s (eventsOf (lines.take k)).dropLast
  /-- Without one of the comments the outcome is the same, but for the numbers of the lines behind
  it. -/
  comment : ∀ (before after : List Text) line, LineKind.comment.heads line →
    lines = before ++ line :: after →
      let out' := Decoder.internal.run sink s (.ofLines (before ++ after))
      out.result = out'.result.mapError (Decoder.later before.length) ∧ out.state = out'.state

/-- **The internal format is read as its grammar says**, by a run into any sink that never
fails. -/
theorem run_internal {σ : Type} {sink : Sink σ} (ht : sink.Tireless) (s : σ)
    (lines : List Text) :
    Conforms sink s lines (Decoder.internal.run sink s (.ofLines lines)) := by
  refine ⟨fun hg => ?_, fun k hk hg hb => ?_, fun before after line hl hlines => ?_⟩
  · obtain ⟨o, ho, -⟩ := opened_of_good hg
    rw [← length_eventsOf, ← completed_append ho]
    exact Decoder.run_opened ht s ho
  · obtain ⟨o, ho, hs⟩ := opened_of_good hg
    obtain ⟨fault, hstep, hcode⟩ := step_of_bad hs hb
    have cut : lines = lines.take k ++ lines[k] :: lines.drop (k + 1) := by
      rw [← List.drop_eq_getElem_cons hk, List.take_append_drop]
    obtain ⟨hr, hst⟩ := Decoder.run_refused ht s ho hstep (lines.drop (k + 1))
    rw [← cut] at hr hst
    rw [List.length_take_of_le (Nat.le_of_lt hk)] at hr
    exact ⟨⟨fault, hr, hcode⟩, completed_eq_dropLast ho hs ▸ hst⟩
  · obtain ⟨v, rfl⟩ := eq_letter_of_heads hl
    subst hlines
    exact Decoder.run_silent ht s fun o => step_letter o .comment v

theorem run_internal_recorder :
    let lines : List Text := ["e:", "f:a", "v:1", "#:b", "v:2", "e:"]
    Sink.recorder.Tireless ∧ Good lines ∧
      (Decoder.internal.run Sink.recorder [] (.ofLines lines)).state =
        [⟨none, [⟨some "a", [.string "1", .string "2"]⟩]⟩, ⟨none, []⟩] :=
  have tireless : Sink.recorder.Tireless := fun _ _ => rfl
  ⟨tireless, by decide +kernel, ((run_internal tireless [] _).good (by decide +kernel)).2⟩

end EventLog.Internal
