import EventLog.Proofs.Decoding.Scan

/-!
# Sinks that follow another one

Two runs of a decoder over one source can differ only through their sinks.  If one sink takes what
another takes, through related states, until it fails (`Sink.Follows`), its run is step by step the
run of the other one, and ends at its first failure.

* `Course.eq_run`: there is only one course from a point on.
* `Course.followed`: the course of the sink that follows is the course of the other one, or breaks
  off at an event that the other one takes.

If both give the same answers (`Sink.Agrees`), the runs give the same result, whether it is a
success or a failure (`run_agrees`).
-/

namespace EventLog

/-- The events of a journal that the sink was handed. -/
def Journal.events (j : Journal) : List Event := j.calls.map Prod.fst

@[simp] theorem Journal.events_nil : events [] = [] := rfl

@[simp] theorem Journal.events_pull (answer : Option (Except EventError Text)) (j : Journal) :
    events (.pull answer :: j) = j.events := by
  simp [events]

@[simp] theorem Journal.events_call (e : Event) (answer : Except EventError Unit) (j : Journal) :
    events (.call e answer :: j) = e :: j.events := by
  simp [events]

@[simp] theorem Journal.events_append (j j' : Journal) :
    events (j ++ j') = j.events ++ j'.events := by
  simp [events, calls]

namespace Sink

variable {σ τ : Type}

/-- In related states a sink takes every event, and one that follows it takes the event too, and
the states behind it are related, or fails. -/
def Follows (sink' : Sink τ) (sink : Sink σ) (R : σ → τ → Prop) : Prop :=
  ∀ {s : σ} {s' : τ} (e : Event), R s s' → ∃ t, sink e s = (.ok (), t) ∧
    ((∃ t', sink' e s' = (.ok (), t') ∧ R t t') ∨ ∃ c t', sink' e s' = (.error c, t'))

/-- The state behind events that the sink is handed one after the other. -/
theorem replies_snd (sink : Sink σ) (s : σ) (es : List Event) :
    (sink.replies s es).2 = sink.feed s es := by
  induction es generalizing s with
  | nil => rfl
  | cons e es ih => exact ih _

end Sink

namespace Decoder

variable {σ τ : Type} {d : Decoder} {sink : Sink σ} {sink' : Sink τ} {R : σ → τ → Prop}
  {p : Progress} {s : σ} {s' : τ} {source : Source} {j : Journal} {out : Outcome σ}

/-- A course is what the run does and what it gives. -/
theorem Course.eq_run (h : Course d sink p s source j out) :
    j = d.journalFrom sink p.opened s source ∧ out = d.runFrom sink p s source := by
  induction h with
  | ended last => simp [journalFrom, runFrom, last, deliver]
  | flushed last taken | unflushed last taken => simp [journalFrom, runFrom, last, deliver, taken]
  | broken => exact ⟨rfl, rfl⟩
  | refused bad => simp [journalFrom, runFrom, Progress.pulled, bad]
  | silent read _ ih =>
      simpa [journalFrom, runFrom, Progress.pulled, read, deliver] using ih
  | delivered read taken _ ih =>
      simpa [journalFrom, runFrom, Progress.pulled, Progress.delivered, read, deliver, taken]
        using ih
  | undelivered read failed =>
      simp [journalFrom, runFrom, Progress.pulled, read, deliver, failed]

theorem Course.state_eq_feed (h : Course d sink p s source j out) :
    out.state = sink.feed s j.events := by
  have replies := congrArg Prod.snd h.replies_calls
  rw [Sink.replies_snd] at replies
  exact replies.symm

/-- A course breaks off at an event that another one delivers: it has been the same up to there. -/
structure BreaksOff (d : Decoder) (sink : Sink σ) (sink' : Sink τ) (R : σ → τ → Prop)
    (p : Progress) (s : σ) (s' : τ) (source : Source) (j before : Journal) (e : Event)
    (c : EventError) (out' : Outcome τ) : Prop where
  /-- The other one takes the event. -/
  taken : ∃ after : Journal, j = before ++ .call e (.ok ()) :: after
  /-- This one fails with it. -/
  course : Course d sink' p s' source (before ++ [.call e (.error c)]) out'
  /-- The states in front of the event are related. -/
  related : ∃ t', R (sink.feed s before.events) t' ∧ sink' e t' = (.error c, out'.state)
  result : out'.result = .error (.decode d.format (p.tally.linesRead + before.lines.length) c)

section

variable {line : Text} {o : Internal.Open} {before : Journal} {e : Event} {c : EventError}
  {out' : Outcome τ}

/-- A line that completes no event may come before. -/
theorem BreaksOff.silent (read : d.step p.opened line = .ok (none, o))
    (h : BreaksOff d sink sink' R { p.pulled d line with opened := o } s s' source j before e c
      out') :
    BreaksOff d sink sink' R p s s' (.ok line :: source) (.pull (some (.ok line)) :: j)
      (.pull (some (.ok line)) :: before) e c out' := by
  obtain ⟨⟨after, rfl⟩, course, related, result⟩ := h
  refine ⟨⟨after, rfl⟩, .silent read course, by simpa using related, ?_⟩
  simpa [Progress.pulled, Nat.add_assoc, Nat.add_comm 1] using result

/-- A line with an event that both take may come before. -/
theorem BreaksOff.delivered {f : Event} {t : σ} {t' : τ}
    (read : d.step p.opened line = .ok (some f, o)) (taken : sink f s = (.ok (), t))
    (taken' : sink' f s' = (.ok (), t'))
    (h : BreaksOff d sink sink' R { p.pulled d line with opened := o }.delivered t t' source j
      before e c out') :
    BreaksOff d sink sink' R p s s' (.ok line :: source)
      (.pull (some (.ok line)) :: .call f (.ok ()) :: j)
      (.pull (some (.ok line)) :: .call f (.ok ()) :: before) e c out' := by
  obtain ⟨⟨after, rfl⟩, course, related, result⟩ := h
  have fed : sink.feed s (f :: before.events) = sink.feed t before.events := by
    simp [Sink.feed, taken]
  refine ⟨⟨after, rfl⟩, .delivered read taken' course, by simpa [fed] using related, ?_⟩
  simpa [Progress.pulled, Progress.delivered, Nat.add_assoc, Nat.add_comm 1] using result

end

/-- **A sink that follows.**  Either its course is the one of the sink before it, and so are the
results, or it breaks off at an event. -/
theorem Course.followed (hf : sink'.Follows sink R)
    (h : Course d sink p s source j out) (hR : R s s') :
    (∃ out', Course d sink' p s' source j out' ∧ out'.result = out.result ∧
      R out.state out'.state) ∨
    ∃ before e c out', BreaksOff d sink sink' R p s s' source j before e c out' := by
  induction h generalizing s' with
  | ended last => exact .inl ⟨_, .ended last, rfl, hR⟩
  | @flushed p s t e last taken =>
      obtain ⟨t₁, taken₁, ⟨t', taken', hR'⟩ | ⟨c, t', failed⟩⟩ := hf e hR
      · obtain rfl := (Prod.mk.inj (taken.symm.trans taken₁)).2
        exact .inl ⟨_, .flushed last taken', rfl, hR'⟩
      · exact .inr ⟨[.pull none], e, c, _, ⟨[], rfl⟩, .unflushed last failed, ⟨s', hR, failed⟩, rfl⟩
  | unflushed _ failed | undelivered _ failed =>
      -- The sink before it takes every event.
      obtain ⟨t, taken, -⟩ := hf _ hR
      cases failed.symm.trans taken
  | broken => exact .inl ⟨_, .broken, rfl, hR⟩
  | refused bad => exact .inl ⟨_, .refused bad, rfl, hR⟩
  | silent read _ ih =>
      obtain ⟨out', further, result, hR'⟩ | ⟨_, e, c, out', off⟩ := ih hR
      · exact .inl ⟨out', .silent read further, result, hR'⟩
      · exact .inr ⟨_, e, c, out', off.silent read⟩
  | @delivered p s t line f _ _ _ _ read taken _ ih =>
      obtain ⟨t₁, taken₁, ⟨t', taken', hR'⟩ | ⟨c, t', failed⟩⟩ := hf f hR
      · obtain rfl := (Prod.mk.inj (taken.symm.trans taken₁)).2
        obtain ⟨out', further, result, hR'⟩ | ⟨_, e, c, out', off⟩ := ih hR'
        · exact .inl ⟨out', .delivered read taken' further, result, hR'⟩
        · exact .inr ⟨_, e, c, out', off.delivered read taken taken'⟩
      · exact .inr ⟨[.pull (some (.ok line))], f, c, _, ⟨_, rfl⟩, .undelivered read failed,
          ⟨s', hR, failed⟩, rfl⟩

end Decoder

/-! ### Sinks that agree -/

/-- In related states two sinks give the same answer to an event, and the states behind it are
related. -/
def Sink.Agrees {σ τ : Type} (sink' : Sink τ) (sink : Sink σ) (R : σ → τ → Prop) : Prop :=
  ∀ {s : σ} {s' : τ} (e : Event), R s s' →
    ∃ answer t t', sink e s = (answer, t) ∧ sink' e s' = (answer, t') ∧ R t t'

namespace Decoder

variable {σ τ : Type} {d : Decoder} {sink : Sink σ} {sink' : Sink τ} {R : σ → τ → Prop}

theorem deliver_agrees (ha : sink'.Agrees sink R) {s : σ} {s' : τ} (hR : R s s') (p : Progress) :
    ∀ e : Option Event, ∃ answer t t', deliver sink p s e = (answer, t) ∧
      deliver sink' p s' e = (answer, t') ∧ R t t'
  | none   => ⟨_, s, s', rfl, rfl, hR⟩
  | some e => by
      obtain ⟨_ | _, t, t', hs, hs', hR'⟩ := ha e hR
      all_goals exact ⟨_, t, t', by rw [deliver, hs], by rw [deliver, hs'], hR'⟩

/-- Runs into sinks that agree give the same result, and related states. -/
theorem runFrom_agrees (ha : sink'.Agrees sink R) :
    ∀ (source : Source) (p : Progress) {s : σ} {s' : τ}, R s s' →
      (d.runFrom sink' p s' source).result = (d.runFrom sink p s source).result ∧
        R (d.runFrom sink p s source).state (d.runFrom sink' p s' source).state
  | [], p, s, s', hR => by
      obtain ⟨_ | _, t, t', hd, hd', hR'⟩ := deliver_agrees ha hR p p.opened.event?
      all_goals
        simp only [runFrom, hd, hd']
        exact ⟨rfl, hR'⟩
  | .error c :: rest, p, s, s', hR => ⟨rfl, hR⟩
  | .ok line :: rest, p, s, s', hR => by
      simp only [runFrom]
      rcases d.step (p.pulled d line).opened line with c | ⟨e, o⟩
      · exact ⟨rfl, hR⟩
      · obtain ⟨_ | p', t, t', hd, hd', hR'⟩ :=
          deliver_agrees ha hR { p.pulled d line with opened := o } e
        · simp only [hd, hd']
          exact ⟨rfl, hR'⟩
        · simp only [hd, hd']
          exact runFrom_agrees ha rest p' hR'

/-- **Runs into sinks that agree**, from the beginning. -/
theorem run_agrees (ha : sink'.Agrees sink R) (d : Decoder) (source : Source) {s : σ} {s' : τ}
    (hR : R s s') :
    (d.run sink' s' source).result = (d.run sink s source).result ∧
      R (d.run sink s source).state (d.run sink' s' source).state :=
  runFrom_agrees ha source .start hR

end Decoder

end EventLog
