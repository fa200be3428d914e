import EventLog.Proofs.Decoding.Journal

/-!
# Runs into a sink that never fails

Into a sink that never fails, a run over lines depends on the lines alone.  `Decoder.completed` are
the events that they complete, `Decoder.opened` is what they leave under way.

* `run_opened`: lines that are all read deliver what they complete and what they leave under way.
* `run_refused`: a line that is not read ends the run with its number, and what is under way in
  front of it is lost.
* `run_silent`: a line that is read without any effect shifts the number of such an end, at most.
-/

namespace EventLog

namespace Sink

variable {σ : Type}

/-- The sink takes every event. -/
def Tireless (sink : Sink σ) : Prop := ∀ e s, (sink e s).1 = .ok ()

/-- The state of a sink behind some events. -/
def feed (sink : Sink σ) (s : σ) (es : List Event) : σ := es.foldl (fun s e => (sink e s).2) s

@[simp] theorem feed_append (sink : Sink σ) (s : σ) (es es' : List Event) :
    sink.feed s (es ++ es') = sink.feed (sink.feed s es) es' := by
  simp [feed]

/-- The sink that keeps all events. -/
def recorder : Sink (List Event) := fun e es => (.ok (), es ++ [e])

theorem Tireless.eq {sink : Sink σ} (ht : sink.Tireless) (e : Event) (s : σ) :
    sink e s = (.ok (), (sink e s).2) := by
  rw [← ht e s]

end Sink

@[simp] theorem Source.ofLines_cons (line : Text) (lines : List Text) :
    ofLines (line :: lines) = .ok line :: ofLines lines := rfl

@[simp] theorem Source.ofLines_append (lines lines' : List Text) :
    ofLines (lines ++ lines') = ofLines lines ++ ofLines lines' := List.map_append

namespace Decoder

/-- The events that lines complete from a point on, up to a line that is refused. -/
def completedFrom (d : Decoder) (o : Internal.Open) : List Text → List Event
  | []            => []
  | line :: lines =>
    match d.step o line with
    | .error _ => []
    | .ok (e, o) => e.toList ++ d.completedFrom o lines

/-- The events that the lines at the beginning of an input complete. -/
def completed (d : Decoder) (lines : List Text) : List Event := d.completedFrom .nothing lines

theorem openedFrom_cons (d : Decoder) (o : Internal.Open) (line : Text) (lines : List Text) :
    d.openedFrom o (line :: lines) =
      match d.step o line with
      | .error c   => .error c
      | .ok (_, o) => d.openedFrom o lines := by
  rw [openedFrom, List.foldlM_cons]
  cases d.step o line with
  | error c => rfl
  | ok r => rfl

variable {σ : Type} {d : Decoder} {sink : Sink σ}

@[simp] theorem deliver_tireless (ht : sink.Tireless) (p : Progress) (s : σ) (e : Option Event) :
    deliver sink p s e =
      (.ok { p with tally.eventsDelivered := p.tally.eventsDelivered + e.toList.length },
        sink.feed s e.toList) := by
  cases e with
  | none => rfl
  | some e => rw [deliver, ht.eq]; rfl

/-- Lines that are read lead a run to a point that they determine, what it remarks apart. -/
theorem runFrom_opened (ht : sink.Tireless) (rest : Source) :
    ∀ (lines : List Text) (p : Progress) (s : σ) {o : Internal.Open},
      d.openedFrom p.opened lines = .ok o →
      ∃ remarks, d.runFrom sink p s (.ofLines lines ++ rest) =
        d.runFrom sink
          ⟨o, { p.tally with
            linesRead := p.tally.linesRead + lines.length
            eventsDelivered :=
              p.tally.eventsDelivered + (d.completedFrom p.opened lines).length }, remarks⟩
          (sink.feed s (d.completedFrom p.opened lines)) rest
  | [], p, s, o, h => ⟨p.remarks, by cases h; rfl⟩
  | line :: lines, p, s, o, h => by
      rw [openedFrom_cons] at h
      cases hr : d.step p.opened line with
      | error c => simp [hr] at h
      | ok r =>
          obtain ⟨e, o'⟩ := r
          simp only [hr] at h
          obtain ⟨remarks, hrun⟩ := runFrom_opened ht rest lines
            ⟨o', { p.tally with
              linesRead := p.tally.linesRead + 1
              eventsDelivered := p.tally.eventsDelivered + e.toList.length },
              p.remarks ++ d.remarks line⟩ (sink.feed s e.toList) h
          refine ⟨remarks, ?_⟩
          rw [Source.ofLines_cons, List.cons_append, runFrom]
          simp only [Progress.pulled, hr, deliver_tireless ht]
          rw [hrun]
          simp [completedFrom, hr, Nat.add_assoc, Nat.add_comm 1]

/-- **Lines that are all read** deliver what they complete and what they leave under way. -/
theorem run_opened (ht : sink.Tireless) (s : σ) {lines : List Text} {o : Internal.Open}
    (h : d.opened lines = .ok o) :
    (d.run sink s (.ofLines lines)).result =
        .ok (d.completed lines ++ o.event?.toList).length ∧
      (d.run sink s (.ofLines lines)).state =
        sink.feed s (d.completed lines ++ o.event?.toList) := by
  obtain ⟨remarks, hrun⟩ := runFrom_opened ht [] lines .start s h
  rw [List.append_nil] at hrun
  rw [run, hrun]
  simp [runFrom, ht, complete, Progress.start, Tally.zero, completed]

/-- **A line that is refused** ends a run with its number; what it finds under way is lost. -/
theorem run_refused (ht : sink.Tireless) (s : σ) {before : List Text} {line : Text}
    {o : Internal.Open} {c : EventError} (h : d.opened before = .ok o)
    (hr : d.step o line = .error c) (after : List Text) :
    (d.run sink s (.ofLines (before ++ line :: after))).result =
        .error (.decode d.format (before.length + 1) c) ∧
      (d.run sink s (.ofLines (before ++ line :: after))).state =
        sink.feed s (d.completed before) := by
  obtain ⟨remarks, hrun⟩ := runFrom_opened ht (.ofLines (line :: after)) before .start s h
  rw [run, Source.ofLines_append, hrun]
  simp [runFrom, Progress.pulled, hr, fail, atLine, Progress.start, Tally.zero, completed]

/-! ### Lines without effect -/

/-- Raises the numbers of the lines behind a number by one. -/
def later (k : Nat) : EventError → EventError
  | .decode format line c => .decode format (if k < line then line + 1 else line) c
  | e                     => e

/-- One line more on the count raises the number of the line that is refused, if one is. -/
theorem runFrom_recounted (ht : sink.Tireless) {k : Nat} :
    ∀ (lines : List Text) {p q : Progress} (s : σ), q.opened = p.opened →
      q.tally.linesRead = p.tally.linesRead + 1 →
      q.tally.eventsDelivered = p.tally.eventsDelivered → k ≤ p.tally.linesRead →
      (d.runFrom sink q s (.ofLines lines)).result =
          (d.runFrom sink p s (.ofLines lines)).result.mapError (later k) ∧
        (d.runFrom sink q s (.ofLines lines)).state =
          (d.runFrom sink p s (.ofLines lines)).state
  | [], p, q, s, ho, hl, he, hk => by
      simp [Source.ofLines, runFrom, ht, complete, ho, he]
  | line :: lines, p, q, s, ho, hl, he, hk => by
      simp only [Source.ofLines_cons, runFrom, Progress.pulled, ho]
      cases hr : d.step p.opened line with
      | error c =>
          -- The error tells the count, and stands behind `k`.
          have : k < p.tally.linesRead + 1 := by omega
          simp [fail, atLine, later, hl, this]
      | ok r =>
          obtain ⟨e, o⟩ := r
          simp only [deliver_tireless ht]
          exact runFrom_recounted ht lines _ rfl (by simp [hl]) (by simp [he]) (by simp; omega)

/-- A line without effect makes no difference to a run, but for the numbers of the lines behind. -/
theorem runFrom_silent (ht : sink.Tireless) {line : Text} (after : List Text)
    (hline : ∀ o, d.step o line = .ok (none, o)) :
    ∀ (before : List Text) (p : Progress) (s : σ) {k : Nat},
      k = p.tally.linesRead + before.length →
      (d.runFrom sink p s (.ofLines (before ++ line :: after))).result =
          (d.runFrom sink p s (.ofLines (before ++ after))).result.mapError (later k) ∧
        (d.runFrom sink p s (.ofLines (before ++ line :: after))).state =
          (d.runFrom sink p s (.ofLines (before ++ after))).state
  | [], p, s, k, hk => by
      simp only [List.nil_append, Source.ofLines_cons, runFrom, hline, deliver_tireless ht]
      exact runFrom_recounted ht after s rfl rfl rfl (by simp [hk])
  | line' :: before, p, s, k, hk => by
      simp only [List.cons_append, Source.ofLines_cons, runFrom, Progress.pulled]
      cases hr : d.step p.opened line' with
      | error c =>
          -- The error stands in front of the line without effect.
          have : ¬ k < p.tally.linesRead + 1 := by simp only [hk, List.length_cons]; omega
          simp [fail, atLine, later, this]
      | ok r =>
          obtain ⟨e, o⟩ := r
          simp only [deliver_tireless ht]
          exact runFrom_silent ht after hline before _ _ (by simp [hk]; omega)

/-- **A line without effect** may stand anywhere: a run gives the same without it, but for the
numbers of the lines behind. -/
theorem run_silent (ht : sink.Tireless) (s : σ) {before after : List Text} {line : Text}
    (hline : ∀ o, d.step o line = .ok (none, o)) :
    (d.run sink s (.ofLines (before ++ line :: after))).result =
        (d.run sink s (.ofLines (before ++ after))).result.mapError (later before.length) ∧
      (d.run sink s (.ofLines (before ++ line :: after))).state =
        (d.run sink s (.ofLines (before ++ after))).state :=
  runFrom_silent ht after hline before .start s (by simp [Progress.start, Tally.zero])

end Decoder

end EventLog
